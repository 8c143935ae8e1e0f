import Peg.Grammar.Eval
import Peg.Request
import Peg.Rule.Store

/-!
# Peg.Session.Basic

Declaring, defining and running rules one command after the other. A session keeps rules under
identifiers. Cloning a rule puts the same reference under another identifier, and a grammar that
refers to a rule keeps that reference even if the identifier is given to another rule later on.
-/

namespace Peg

structure Session (κ ω σ α : Type) where
  /-- The latest rule under an identifier is in force. -/
  rules : List (String × Rule)
  store : Store (Grammar κ ω α)
  /-- The state that foreign parsers share. -/
  state : σ

namespace Session

variable {κ ω σ α : Type}

inductive Command (κ ω α : Type) where
  | declare (id name : String)
  | clone (id of : String)
  | info (id : String)
  | define (id : String) (body : Grammar κ ω α)
  | parse (g : Grammar κ ω α) (req : Request)

inductive Outcome (α : Type) where
  /-- A rule, and whether it has a body. -/
  | info (r : Rule) (defined : Bool)
  | defined
  | replied (reply : Reply (Value α))

/-- What a command leads to: its outcome, the records it leaves, and the session after it. -/
structure Effect (κ ω σ α : Type) where
  outcome : Outcome α
  log : List Record
  session : Session κ ω σ α

def start (state : σ) : Session κ ω σ α := ⟨[], .empty, state⟩

def rule? (s : Session κ ω σ α) (id : String) : Option Rule := s.rules.lookup id

def env (s : Session κ ω σ α) (foreign : Foreign κ ω σ α) : Env κ ω σ α :=
  { foreign with body? := s.store.body? }

def info (s : Session κ ω σ α) (r : Rule) : Outcome α := .info r (s.store.isDefined r)

def declare (s : Session κ ω σ α) (id name : String) : Effect κ ω σ α :=
  let (r, store) := s.store.declare name
  let s' := { s with rules := (id, r) :: s.rules, store }
  ⟨s'.info r, [], s'⟩

def clone (s : Session κ ω σ α) (id : String) (r : Rule) : Effect κ ω σ α :=
  ⟨s.info r, [], { s with rules := (id, r) :: s.rules }⟩

def define (s : Session κ ω σ α) (r : Rule) (body : Grammar κ ω α) : Effect κ ω σ α :=
  match s.store.define r body with
  | .ok store => ⟨.defined, [.defined r.name], { s with store }⟩
  | .error e => ⟨.replied (.misused e), [], s⟩

def parse (s : Session κ ω σ α) (foreign : Foreign κ ω σ α) (g : Grammar κ ω α) (req : Request) :
    Effect κ ω σ α :=
  let r := req.run (Grammar.parser (s.env foreign) g) s.state
  ⟨.replied r.reply, r.log, { s with state := r.state }⟩

/-- Carries out a command. There is no effect if it uses an identifier without a rule. -/
def step? (s : Session κ ω σ α) (foreign : Foreign κ ω σ α) :
    Command κ ω α → Option (Effect κ ω σ α)
  | .declare id name => some (s.declare id name)
  | .clone id of => (s.rule? of).map (s.clone id)
  | .info id => (s.rule? id).map fun r => ⟨s.info r, [], s⟩
  | .define id body => (s.rule? id).map (s.define · body)
  | .parse g req => some (s.parse foreign g req)

end Session
end Peg
