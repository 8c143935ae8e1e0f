import Peg.Proofs.Rule.Renaming
import Peg.Proofs.Session.Reaches
import Peg.Proofs.Session.Replies

/-!
# Peg.Proofs.Session.BindOnce

Slots are filled once, and whoever refers to a slot sees it filled.

* `origins cmds`: for every rule that the commands have put under an identifier, which of the
  creations it goes back to.
* `BindOnce`: what holds in a session that the commands have led to.
* `slots_bindOnce`: it holds in every session. Two sessions in which the same rules have the same
  bodies, in whatever order they came to them, answer every parse alike. That goes also for rules
  that were created in another order, up to the numbers of their slots.
-/

namespace Peg
namespace Session

variable {κ ω σ α : Type} {foreign : Foreign κ ω σ α} {s t : Session κ ω σ α} {state : σ}
  {cmd : Command κ ω α} {cmds : List (Command κ ω α)} {e : Effect κ ω σ α} {r : Rule}
  {body : Grammar κ ω α} {slot : Nat}

/-! ## Which rules are the same -/

/-- Creations are numbered. -/
structure Origins where
  /-- How many rules have been created. -/
  created : Nat
  /-- The creation that the rule under an identifier goes back to, the latest first. -/
  table : List (String × Nat)

def Origins.after (o : Origins) : Command κ ω α → Origins
  | .declare id _ => ⟨o.created + 1, (id, o.created) :: o.table⟩
  | .clone id of =>
    match o.table.lookup of with
    | some n => { o with table := (id, n) :: o.table }
    | none => o
  | .info _ | .define _ _ | .parse _ _ => o

def origins (cmds : List (Command κ ω α)) : Origins := cmds.foldl Origins.after ⟨0, []⟩

/-- The slots of the rules of a session, read as the numbers of their creations. -/
def slots (s : Session κ ω σ α) : Origins :=
  ⟨s.store.slots.length, s.rules.map fun p => (p.1, p.2.slot)⟩

theorem lookup_slots (s : Session κ ω σ α) (id : String) :
    s.slots.table.lookup id = (s.rule? id).map Rule.slot := by
  unfold slots rule?
  induction s.rules with
  | nil => rfl
  | cons p rules ih =>
    obtain ⟨key, r⟩ := p
    simp only [List.map_cons, List.lookup_cons]
    cases id == key with
    | true => rfl
    | false => exact ih

theorem slots_step (h : s.step? foreign cmd = some e) : s.slots.after cmd = e.session.slots := by
  rcases step?_cases h with ⟨id, name, rfl, rfl⟩ | ⟨id, of, r, rfl, hr, rfl⟩ |
    ⟨id, r, rfl, -, rfl⟩ | ⟨id, body, r, rfl, -, rfl⟩ | ⟨g, req, rfl, rfl⟩
  · simp [Origins.after, slots, declare, Store.declare]
  · simp only [Origins.after, lookup_slots, hr, Option.map_some]
    rfl
  · rfl
  · cases hd : s.store.isDefined r with
    | true =>
      rw [define_of_isDefined hd]
      rfl
    | false =>
      rw [define_of_not_isDefined hd]
      simp [Origins.after, slots]
  · rfl

theorem Reaches.slots_eq (h : Reaches foreign s cmds t) :
    cmds.foldl Origins.after s.slots = t.slots := by
  induction h with
  | nil => rfl
  | cons hstep _ ih => rw [List.foldl_cons, slots_step hstep, ih]

/-! ## Running a rule -/

/-- A reference runs what is in its slot, whenever the reference was made. -/
theorem runs_rule_iff {env : Env κ ω σ α} (hb : env.body? r.slot = some body) {c : Cursor} {s : σ}
    {run : Run σ (Answer (Value α))} :
    Grammar.Runs env (.rule r) c s run ↔
      ∃ run', Grammar.Runs env body c s run' ∧
        run = run'.behind (.single (.entering r.name c.offset)) := by
  constructor
  · rintro ⟨_ | n, hrun⟩
    · cases hrun
    · change Parser.invoke r ((env.body? r.slot).map (Grammar.eval env n)) c s = some run at hrun
      rw [hb] at hrun
      rcases Parsing.bind_eq_some_iff.1 hrun with ⟨_, _, _, h, _⟩ | ⟨_, _, _, run', h, h', rfl⟩
      · cases h
      · cases h
        exact ⟨run', ⟨n, h'⟩, rfl⟩
  · rintro ⟨run', ⟨n, h⟩, rfl⟩
    refine ⟨n + 1, ?_⟩
    change Parser.invoke r ((env.body? r.slot).map (Grammar.eval env n)) c s = _
    rw [hb]
    exact Parsing.bind_eq_some_iff.2 (.inr ⟨(), _, s, run', rfl, h, rfl⟩)

/-! ## The main result -/

/-- What holds of the slots in the session `s` to which the commands `cmds` have led. -/
structure BindOnce (foreign : Foreign κ ω σ α) (state : σ) (cmds : List (Command κ ω α))
    (s : Session κ ω σ α) : Prop where
  /-- A slot is that of the rules that go back to one creation, and of no others. -/
  shared : s.rules.map (fun p => (p.1, p.2.slot)) = (origins cmds).table
  /-- A new rule has a slot of its own, which is empty. -/
  fresh : ∀ id name, ∃ e r, s.step? foreign (.declare id name) = some e ∧
    e.session.rule? id = some r ∧ e.outcome = .info r false ∧ (∀ p ∈ s.rules, p.2.slot ≠ r.slot) ∧
    e.session.store.body? r.slot = none ∧
    ∀ slot, e.session.store.body? slot = s.store.body? slot
  /-- A clone is the same reference. -/
  cloned : ∀ id of r, s.rule? of = some r → ∃ e, s.step? foreign (.clone id of) = some e ∧
    e.session.rule? id = some r ∧ e.session.store = s.store
  /-- A slot holds a body exactly if a definition of it has succeeded. -/
  contents : ∀ slot body,
    s.store.body? slot = some body ↔ Defines foreign (start state) cmds slot body
  /-- A definition succeeds exactly if the slot is empty. Otherwise it changes nothing. -/
  defined : ∀ id r body, s.rule? id = some r → ∃ e, s.step? foreign (.define id body) = some e ∧
    (e.outcome = .defined ↔ s.store.isDefined r = false) ∧
    (s.store.isDefined r = true → e = ⟨.replied (.misused (.alreadyDefined r.name)), [], s⟩)
  /-- Whatever comes after a definition that has succeeded, its body is in the slot, and no other
  definition of that slot succeeds. -/
  kept : ∀ id r body e, s.rule? id = some r → s.step? foreign (.define id body) = some e →
    e.outcome = .defined → ∀ cmds' t, Reaches foreign e.session cmds' t →
    t.store.body? r.slot = some body ∧
    ∀ id' r' body' e', t.rule? id' = some r' → r'.slot = r.slot →
      t.step? foreign (.define id' body') = some e' → e'.outcome ≠ .defined
  /-- A body stays where it is. -/
  stays : ∀ slot body, s.store.body? slot = some body → ∀ cmds' t, Reaches foreign s cmds' t →
    t.store.body? slot = some body ∧ ∀ r, r.slot = slot → t.store.isDefined r = true
  /-- Any reference to a slot, in whatever grammar it occurs, runs the body that is there now. -/
  seen : ∀ r body, s.store.body? r.slot = some body → ∀ c st run,
    (Grammar.Runs (s.env foreign) (.rule r) c st run ↔
      ∃ run', Grammar.Runs (s.env foreign) body c st run' ∧
        run = run'.behind (.single (.entering r.name c.offset)))
  /-- A parse replies and records what a run of its grammar comes to, with the bodies that are in
  the slots now. It may also not end within its bound. -/
  answered : ∀ g req c, req.origin = .ok c → ∃ e, s.step? foreign (.parse g req) = some e ∧
    ((∃ run, Grammar.Runs (s.env foreign) g c s.state run ∧ e = s.reported req c run) ∨
      Grammar.eval (s.env foreign) Grammar.ampleFuel g c s.state = none ∧
        e = ⟨.replied .unfinished, [], s⟩)
  /-- So if it ends, a parse of a reference replies what the body in its slot comes to. -/
  answeredBy : ∀ r body, s.store.body? r.slot = some body → ∀ req c e, req.origin = .ok c →
    s.step? foreign (.parse (.rule r) req) = some e → e.outcome ≠ .replied .unfinished →
    ∃ run, Grammar.Runs (s.env foreign) body c s.state run ∧
      e = s.reported req c (run.behind (.single (.entering r.name c.offset)))
  /-- A parse changes no slot, however it ends. -/
  parsed : ∀ g req e, s.step? foreign (.parse g req) = some e →
    e.session.store = s.store ∧ e.session.rules = s.rules

theorem WellFormed.fresh (hs : s.WellFormed) (id name : String) :
    ∃ e r, s.step? foreign (.declare id name) = some e ∧ e.session.rule? id = some r ∧
      e.outcome = .info r false ∧ (∀ p ∈ s.rules, p.2.slot ≠ r.slot) ∧
      e.session.store.body? r.slot = none ∧
      ∀ slot, e.session.store.body? slot = s.store.body? slot := by
  have hkeep : ∀ slot, (s.declare id name).session.store.body? slot = s.store.body? slot :=
    s.store.body?_declare name
  have hempty : (s.declare id name).session.store.body? s.store.slots.length = none := by
    rw [hkeep, Store.body?, List.getElem?_eq_none (Nat.le_refl _)]
    rfl
  refine ⟨s.declare id name, ⟨name, s.store.slots.length⟩, rfl, ?_, ?_, ?_, hempty, hkeep⟩
  · exact List.lookup_cons_self
  · change Outcome.info _ ((s.declare id name).session.store.isDefined _) = _
    rw [Store.isDefined_eq, hempty]
    rfl
  · exact fun p hp => Nat.ne_of_lt (hs p hp)

theorem exists_clone {id of : String} (hr : s.rule? of = some r) :
    ∃ e, s.step? foreign (.clone id of) = some e ∧ e.session.rule? id = some r ∧
      e.session.store = s.store := by
  refine ⟨s.clone id r, ?_, List.lookup_cons_self, rfl⟩
  rw [step?, hr, Option.map_some]

theorem exists_define {id : String} (hr : s.rule? id = some r) (body : Grammar κ ω α) :
    ∃ e, s.step? foreign (.define id body) = some e ∧
      (e.outcome = .defined ↔ s.store.isDefined r = false) ∧
      (s.store.isDefined r = true → e = ⟨.replied (.misused (.alreadyDefined r.name)), [], s⟩) := by
  refine ⟨s.define r body, ?_, define_outcome_iff, define_of_isDefined⟩
  rw [step?, hr, Option.map_some]

/-- A slot that is filled stays filled with the same body. -/
theorem Reaches.stays (h : Reaches foreign s cmds t) (hs : s.WellFormed)
    (hb : s.store.body? slot = some body) :
    t.store.body? slot = some body ∧ ∀ r, r.slot = slot → t.store.isDefined r = true := by
  have hb' := h.body?_of_body? hs hb
  refine ⟨hb', ?_⟩
  rintro r rfl
  rw [Store.isDefined_eq, hb', Option.isSome_some]

/-- After a definition that has succeeded there is no other one of that slot. -/
theorem Reaches.kept (h : Reaches foreign e.session cmds t) (hs : s.WellFormed) {id : String}
    (hr : s.rule? id = some r) (he : s.step? foreign (.define id body) = some e)
    (ho : e.outcome = .defined) :
    t.store.body? r.slot = some body ∧
    ∀ id' r' body' e', t.rule? id' = some r' → r'.slot = r.slot →
      t.step? foreign (.define id' body') = some e' → e'.outcome ≠ .defined := by
  have hput : e.session.store.body? r.slot = some body :=
    (body?_step hs he).2 (.inr ⟨id, r, rfl, hr, rfl, ho⟩)
  obtain ⟨hbody, hdefined⟩ := h.stays (wellFormed_step hs he) hput
  refine ⟨hbody, fun id' r' body' e' hr' hslot he' ho' => ?_⟩
  rw [step?, hr', Option.map_some, Option.some.injEq] at he'
  subst he'
  have hempty := define_outcome_iff.1 ho'
  rw [hdefined r' hslot] at hempty
  cases hempty

/-- What a reference is parsed to does not depend on when it was made: the slot is looked up now. -/
theorem exists_parse_body (hb : s.store.body? r.slot = some body) {req : Request} {c : Cursor}
    (hc : req.origin = .ok c) (he : s.step? foreign (.parse (.rule r) req) = some e)
    (ho : e.outcome ≠ .replied .unfinished) :
    ∃ run, Grammar.Runs (s.env foreign) body c s.state run ∧
      e = s.reported req c (run.behind (.single (.entering r.name c.offset))) := by
  obtain ⟨e', he', ⟨run, hrun, rfl⟩ | ⟨-, rfl⟩⟩ := s.exists_parse foreign (.rule r) hc
  · obtain rfl := Option.some.inj (he.symm.trans he')
    obtain ⟨run', hrun', rfl⟩ := (runs_rule_iff hb).1 hrun
    exact ⟨run', hrun', rfl⟩
  · obtain rfl := Option.some.inj (he.symm.trans he')
    exact absurd rfl ho

theorem Reaches.bindOnce (h : Reaches foreign (start state) cmds s) :
    BindOnce foreign state cmds s := by
  have hs : s.WellFormed := h.wellFormed (wellFormed_start state)
  exact
    { shared := (congrArg Origins.table h.slots_eq).symm
      fresh := hs.fresh
      cloned := fun id of r hr => exists_clone hr
      contents := fun slot body => h.body?_iff_defines
      defined := fun id r body hr => exists_define hr body
      kept := fun id r body e hr he ho cmds' t ht => ht.kept hs hr he ho
      stays := fun slot body hb cmds' t ht => ht.stays hs hb
      seen := fun r body hb c st run => runs_rule_iff hb
      answered := fun g req c hc => s.exists_parse foreign g hc
      answeredBy := fun r body hb req c e hc he ho => exists_parse_body hb hc he ho
      parsed := fun g req e he => by
        cases he
        exact ⟨rfl, rfl⟩ }

/-! ## The order of definitions -/

/-- The same can be seen of both, and later parses find the same state. -/
def Effect.Alike (e e' : Effect κ ω σ α) : Prop :=
  e.outcome = e'.outcome ∧ e.log = e'.log ∧ e.session.state = e'.session.state

/-- Only the bodies in the slots and the state of foreign parsers matter to a parse; and the numbers
of the slots do not. -/
theorem parse_rename (hf : foreign.Congruent) {ρ : Nat → Nat}
    (hbody : ∀ slot, t.store.body? (ρ slot) = (s.store.body? slot).map (Grammar.rename ρ))
    (hstate : s.state = t.state) (g : Grammar κ ω α) (req : Request) :
    (s.parse foreign g req).Alike (t.parse foreign (g.rename ρ) req) := by
  have hagree : Parser.Agrees (Grammar.parser (s.env foreign) g)
      (Grammar.parser (t.env foreign) (g.rename ρ)) :=
    Grammar.eval_rename hf hbody Grammar.ampleFuel g
  have hrun := req.run_agrees hagree s.state
  simp only [Effect.Alike, parse, ← hstate, hrun, and_self]

/-- Every session keeps to the rules for slots, and parses depend only on what has been defined.
That foreign parsers find the same state is no condition where there are none: `σ` is `Unit` then. -/
theorem slots_bindOnce (foreign : Foreign κ ω σ α) :
    (∀ state cmds s, Reaches foreign (start state) cmds s → BindOnce foreign state cmds s) ∧
    (∀ state₁ state₂ cmds₁ cmds₂ s₁ s₂, Reaches foreign (start state₁) cmds₁ s₁ →
      Reaches foreign (start state₂) cmds₂ s₂ → s₁.state = s₂.state →
      (∀ slot body, Defines foreign (start state₂) cmds₂ slot body ↔
        Defines foreign (start state₁) cmds₁ slot body) →
      ∀ g req, (s₁.parse foreign g req).Alike (s₂.parse foreign g req)) ∧
    (foreign.Congruent → ∀ (ρ : Nat → Nat) state₁ state₂ cmds₁ cmds₂ s₁ s₂,
      Reaches foreign (start state₁) cmds₁ s₁ → Reaches foreign (start state₂) cmds₂ s₂ →
      s₁.state = s₂.state →
      (∀ slot body, Defines foreign (start state₂) cmds₂ (ρ slot) body ↔
        ∃ body₁, Defines foreign (start state₁) cmds₁ slot body₁ ∧ body₁.rename ρ = body) →
      ∀ g req, (s₁.parse foreign g req).Alike (s₂.parse foreign (g.rename ρ) req)) := by
  refine ⟨fun _ _ _ h => h.bindOnce, ?_, ?_⟩
  · -- nothing has to be renamed, so foreign parsers may look at whatever they like
    intro state₁ state₂ cmds₁ cmds₂ s₁ s₂ h₁ h₂ hstate hdefs g req
    have hbody : s₁.store.body? = s₂.store.body? := by
      funext slot
      ext body
      rw [h₁.body?_iff_defines, h₂.body?_iff_defines, hdefs]
    simp only [Effect.Alike, parse, env, hbody, hstate, and_self]
  · intro hf ρ state₁ state₂ cmds₁ cmds₂ s₁ s₂ h₁ h₂ hstate hdefs
    refine parse_rename hf (fun slot => ?_) hstate
    ext body
    rw [h₂.body?_iff_defines, hdefs, Option.map_eq_some_iff]
    simp only [h₁.body?_iff_defines]

/-- Some `x`, with a tail behind the last one. -/
def listBody (tail : Nat) : Grammar Empty Empty Nat :=
  .and (.char 'x') (.optional (.rule ⟨"tail", tail⟩))

def listFirst : List (Command Empty Empty Nat) :=
  [.declare "list" "list", .declare "tail" "tail", .define "list" (listBody 1),
    .define "tail" (.char 'y')]

/-- The same in another order, with a clone, and with a definition that is refused. -/
def tailFirst : List (Command Empty Empty Nat) :=
  [.declare "tail" "tail", .clone "end" "tail", .declare "list" "list", .define "end" (.char 'y'),
    .define "tail" .eof, .define "list" (listBody 0)]

def swap : Nat → Nat
  | 0 => 1
  | 1 => 0
  | n => n

theorem slots_bindOnce_swapped :
    ∃ (foreign : Foreign Empty Empty Unit Nat) (s₁ s₂ : Session Empty Empty Unit Nat),
      foreign.Congruent ∧ Reaches foreign (start ()) listFirst s₁ ∧
      Reaches foreign (start ()) tailFirst s₂ ∧ BindOnce foreign () tailFirst s₂ ∧
      ∀ req, (s₁.parse foreign (.rule ⟨"list", 0⟩) req).Alike
        (s₂.parse foreign (.rule ⟨"list", 1⟩) req) := by
  let foreign : Foreign Empty Empty Unit Nat := (Env.ofBodies fun _ => none).toForeign
  have h₁ : Reaches foreign (start ()) listFirst
      ⟨[("tail", ⟨"tail", 1⟩), ("list", ⟨"list", 0⟩)],
        ⟨[some (listBody 1), some (.char 'y')]⟩, ()⟩ :=
    .cons rfl (.cons rfl (.cons rfl (.cons rfl .nil)))
  have h₂ : Reaches foreign (start ()) tailFirst
      ⟨[("list", ⟨"list", 1⟩), ("end", ⟨"tail", 0⟩), ("tail", ⟨"tail", 0⟩)],
        ⟨[some (.char 'y'), some (listBody 0)]⟩, ()⟩ :=
    .cons rfl (.cons rfl (.cons rfl (.cons rfl (.cons rfl (.cons rfl .nil)))))
  have hc : foreign.Congruent := foreign.congruent_of_isEmpty
  obtain ⟨hbind, -, hrename⟩ := slots_bindOnce foreign
  refine ⟨foreign, _, _, hc, h₁, h₂, hbind _ _ _ h₂, fun req => ?_⟩
  have hdefs : ∀ slot body, Defines foreign (start ()) tailFirst (swap slot) body ↔
      ∃ body₁, Defines foreign (start ()) listFirst slot body₁ ∧ body₁.rename swap = body := by
    intro slot body
    simp only [← h₁.body?_iff_defines, ← h₂.body?_iff_defines, ← Option.map_eq_some_iff]
    rcases slot with _ | _ | slot
    · simp [Store.body?, swap, listBody, Grammar.rename, Grammar.char, Rule.rename]
    · simp [Store.body?, swap, Grammar.rename, Grammar.char]
    · simp [Store.body?, swap]
  have hparse := hrename hc swap () () _ _ _ _ h₁ h₂ rfl hdefs (.rule ⟨"list", 0⟩) req
  rw [Grammar.rename] at hparse
  exact hparse

end Session
end Peg
