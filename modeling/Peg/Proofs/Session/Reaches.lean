import Peg.Session.Basic

/-!
# Peg.Proofs.Session.Reaches

Sessions over many commands.

* `Reaches foreign s cmds t`: from the session `s` the commands `cmds` lead to `t`.
* `Defines foreign s cmds slot body`: one of these commands is a definition that succeeds, and puts
  `body` into `slot`.
* `WellFormed s`: the slots of all rules of `s` exist.
* `body?_step`: what a command does to the bodies in the slots. Only a definition that succeeds does
  anything to them.
* `Reaches.body?`: so what lies in the slots at the end is what lay there, and what was defined.
-/

namespace Peg
namespace Session

variable {κ ω σ α : Type} {foreign : Foreign κ ω σ α} {s t : Session κ ω σ α}
  {cmd : Command κ ω α} {cmds : List (Command κ ω α)} {e : Effect κ ω σ α} {r : Rule}
  {body : Grammar κ ω α} {slot : Nat}

inductive Reaches (foreign : Foreign κ ω σ α) :
    Session κ ω σ α → List (Command κ ω α) → Session κ ω σ α → Prop
  | nil {s : Session κ ω σ α} : Reaches foreign s [] s
  | cons {s t : Session κ ω σ α} {cmd : Command κ ω α} {cmds : List (Command κ ω α)}
      {e : Effect κ ω σ α} :
      s.step? foreign cmd = some e → Reaches foreign e.session cmds t →
      Reaches foreign s (cmd :: cmds) t

/-- The command `cmd`, with the effect `e`, defines a rule of that slot, and that succeeds. -/
def Puts (s : Session κ ω σ α) (cmd : Command κ ω α) (e : Effect κ ω σ α) (slot : Nat)
    (body : Grammar κ ω α) : Prop :=
  ∃ id r, cmd = .define id body ∧ s.rule? id = some r ∧ r.slot = slot ∧ e.outcome = .defined

inductive Defines (foreign : Foreign κ ω σ α) :
    Session κ ω σ α → List (Command κ ω α) → Nat → Grammar κ ω α → Prop
  | now {s : Session κ ω σ α} {cmd : Command κ ω α} {cmds : List (Command κ ω α)}
      {e : Effect κ ω σ α} {slot : Nat} {body : Grammar κ ω α} :
      s.step? foreign cmd = some e → Puts s cmd e slot body →
      Defines foreign s (cmd :: cmds) slot body
  | later {s : Session κ ω σ α} {cmd : Command κ ω α} {cmds : List (Command κ ω α)}
      {e : Effect κ ω σ α} {slot : Nat} {body : Grammar κ ω α} :
      s.step? foreign cmd = some e → Defines foreign e.session cmds slot body →
      Defines foreign s (cmd :: cmds) slot body

def WellFormed (s : Session κ ω σ α) : Prop := ∀ p ∈ s.rules, p.2.slot < s.store.slots.length

theorem mem_rules_of_rule? {id : String} (h : s.rule? id = some r) : (id, r) ∈ s.rules := by
  obtain ⟨l₁, l₂, hl, -⟩ := List.lookup_eq_some_iff.1 h
  rw [hl]
  exact List.mem_append_right l₁ List.mem_cons_self

theorem wellFormed_start (state : σ) : (start state : Session κ ω σ α).WellFormed := nofun

theorem WellFormed.lt (hs : s.WellFormed) {id : String} (h : s.rule? id = some r) :
    r.slot < s.store.slots.length :=
  hs _ (mem_rules_of_rule? h)

/-! ## One command -/

theorem step?_cases (h : s.step? foreign cmd = some e) :
    (∃ id name, cmd = .declare id name ∧ e = s.declare id name) ∨
    (∃ id of r, cmd = .clone id of ∧ s.rule? of = some r ∧ e = s.clone id r) ∨
    (∃ id r, cmd = .info id ∧ s.rule? id = some r ∧ e = ⟨s.info r, [], s⟩) ∨
    (∃ id body r, cmd = .define id body ∧ s.rule? id = some r ∧ e = s.define r body) ∨
    (∃ g req, cmd = .parse g req ∧ e = s.parse foreign g req) := by
  cases cmd with
  | declare id name => exact .inl ⟨id, name, rfl, (Option.some.inj h).symm⟩
  | clone id of =>
    obtain ⟨r, hr, he⟩ := Option.map_eq_some_iff.1 h
    exact .inr (.inl ⟨id, of, r, rfl, hr, he.symm⟩)
  | info id =>
    obtain ⟨r, hr, he⟩ := Option.map_eq_some_iff.1 h
    exact .inr (.inr (.inl ⟨id, r, rfl, hr, he.symm⟩))
  | define id body =>
    obtain ⟨r, hr, he⟩ := Option.map_eq_some_iff.1 h
    exact .inr (.inr (.inr (.inl ⟨id, body, r, rfl, hr, he.symm⟩)))
  | parse g req => exact .inr (.inr (.inr (.inr ⟨g, req, rfl, (Option.some.inj h).symm⟩)))

theorem define_of_isDefined (h : s.store.isDefined r = true) :
    s.define r body = ⟨.replied (.misused (.alreadyDefined r.name)), [], s⟩ := by
  rw [define, Store.define_eq_error h]

theorem define_of_not_isDefined (h : s.store.isDefined r = false) :
    s.define r body =
      ⟨.defined, [.defined r.name],
        { s with store := ⟨s.store.slots.set r.slot (some body)⟩ }⟩ := by
  rw [define, Store.define_eq_ok h]

/-- A definition succeeds exactly where there is no body yet. -/
theorem define_outcome_iff :
    (s.define r body).outcome = .defined ↔ s.store.isDefined r = false := by
  cases h : s.store.isDefined r with
  | false => simp [define_of_not_isDefined h]
  | true => simp [define_of_isDefined h]

theorem wellFormed_step (hs : s.WellFormed) (h : s.step? foreign cmd = some e) :
    e.session.WellFormed := by
  rcases step?_cases h with ⟨id, name, -, rfl⟩ | ⟨id, of, r, -, hr, rfl⟩ | ⟨id, r, -, -, rfl⟩ |
    ⟨id, body, r, -, -, rfl⟩ | ⟨g, req, -, rfl⟩
  · intro p hp
    simp only [declare, Store.declare, List.length_append, List.length_singleton] at hp ⊢
    rcases List.mem_cons.1 hp with rfl | hp
    · exact Nat.lt_succ_self _
    · exact Nat.lt_succ_of_lt (hs p hp)
  · intro p hp
    rcases List.mem_cons.1 hp with rfl | hp
    · exact hs.lt hr
    · exact hs p hp
  · exact hs
  · cases hd : s.store.isDefined r with
    | true =>
      rw [define_of_isDefined hd]
      exact hs
    | false =>
      rw [define_of_not_isDefined hd]
      intro p hp
      rw [List.length_set]
      exact hs p hp
  · exact hs

theorem body?_step (hs : s.WellFormed) (h : s.step? foreign cmd = some e) :
    e.session.store.body? slot = some body ↔
      s.store.body? slot = some body ∨ Puts s cmd e slot body := by
  rcases step?_cases h with ⟨id, name, rfl, rfl⟩ | ⟨id, of, r, rfl, -, rfl⟩ |
    ⟨id, r, rfl, -, rfl⟩ | ⟨id, body', r, rfl, hr, rfl⟩ | ⟨g, req, rfl, rfl⟩
  · have hkeep : (s.declare id name).session.store.body? slot = s.store.body? slot :=
      s.store.body?_declare name slot
    simp [Puts, hkeep]
  · simp [Puts, clone]
  · simp [Puts]
  · cases hd : s.store.isDefined r with
    | true => simp [Puts, define_of_isDefined hd]
    | false =>
      -- the slot was empty, so that only the new body can be found there afterwards
      have hnone : s.store.body? r.slot = none := by
        simpa [Store.isDefined_eq] using hd
      have hset : s.store.define r body' = .ok ⟨s.store.slots.set r.slot (some body')⟩ :=
        Store.define_eq_ok hd
      have hbody := Store.body?_define (hs.lt hr) hset slot
      rw [define_of_not_isDefined hd, hbody]
      by_cases hslot : slot = r.slot
      · subst hslot
        rw [if_pos rfl, hnone]
        constructor
        · intro hb
          cases hb
          exact .inr ⟨id, r, rfl, hr, rfl, rfl⟩
        · rintro (hb | ⟨_, _, hcmd, -⟩)
          · cases hb
          · cases hcmd
            rfl
      · rw [if_neg hslot]
        constructor
        · exact .inl
        · rintro (hb | ⟨_, r', hcmd, hr', rfl, -⟩)
          · exact hb
          · cases hcmd
            cases hr.symm.trans hr'
            exact absurd rfl hslot
  · simp [Puts, parse]

/-! ## Many commands -/

theorem defines_cons (h : s.step? foreign cmd = some e) :
    Defines foreign s (cmd :: cmds) slot body ↔
      Puts s cmd e slot body ∨ Defines foreign e.session cmds slot body := by
  constructor
  · intro hd
    cases hd with
    | now h' hputs =>
      cases h.symm.trans h'
      exact .inl hputs
    | later h' hlater =>
      cases h.symm.trans h'
      exact .inr hlater
  · rintro (hputs | hlater)
    · exact .now h hputs
    · exact .later h hlater

namespace Reaches

theorem wellFormed (h : Reaches foreign s cmds t) (hs : s.WellFormed) : t.WellFormed := by
  induction h with
  | nil => exact hs
  | cons hstep _ ih => exact ih (wellFormed_step hs hstep)

theorem body? (h : Reaches foreign s cmds t) (hs : s.WellFormed) :
    t.store.body? slot = some body ↔
      s.store.body? slot = some body ∨ Defines foreign s cmds slot body := by
  induction h with
  | nil =>
    constructor
    · exact .inl
    · rintro (hb | hd)
      · exact hb
      · cases hd
  | cons hstep _ ih =>
    rw [ih (wellFormed_step hs hstep), body?_step hs hstep, defines_cons hstep, or_assoc]

/-- No command takes a body out of a slot or puts another one in its place. -/
theorem body?_of_body? (h : Reaches foreign s cmds t) (hs : s.WellFormed)
    (hb : s.store.body? slot = some body) : t.store.body? slot = some body :=
  (h.body? hs).2 (.inl hb)

/-- From the start the bodies are those that have been defined. -/
theorem body?_iff_defines {state : σ} (h : Reaches foreign (start state) cmds t) :
    t.store.body? slot = some body ↔ Defines foreign (start state) cmds slot body := by
  rw [h.body? (wellFormed_start state)]
  constructor
  · rintro (hb | hd)
    · cases hb
    · exact hd
  · exact .inr

end Reaches
end Session
end Peg
