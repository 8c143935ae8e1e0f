import Peg.Grammar.Eval
import Peg.Proofs.Grammar.Uses
import Peg.Proofs.Parser.Confined

/-!
# Peg.Proofs.Grammar.Confined

Every run of a grammar stays in the text from its cursor on.

* `Run.InBounds c r`: where `r` stops, where it fails and where it enters rules are all places in the
  source of `c`, between two characters or at an end, and none of them in front of `c`.
* `runs_inBounds`: runs of grammars are in bounds if the foreign parsers in them are.
* `undefined_of_aborted`: a run is aborted only at a rule that the grammar uses and that has no body.
-/

namespace Peg

structure Run.InBounds {σ β : Type} (c : Cursor) (r : Run σ (Answer β)) : Prop where
  ok : ∀ v d, r.result = .ok (.ok v d) →
    d.source = c.source ∧ d.Valid ∧ c.offset ≤ d.offset ∧ d.offset ≤ c.source.utf8ByteSize
  fail : ∀ e, r.result = .ok (.fail e) →
    e.location.text = c.source ∧ Text.isBoundary c.source e.position = true ∧
      c.offset ≤ e.position ∧ e.position ≤ c.source.utf8ByteSize
  entering : ∀ name o, .entering name o ∈ r.log.toList →
    Text.isBoundary c.source o = true ∧ c.offset ≤ o ∧ o ≤ c.source.utf8ByteSize

def Parser.InBounds {σ β : Type} (p : Parser σ β) : Prop :=
  ∀ c s r, c.Valid → p c s = some r → r.InBounds c

theorem Parser.inBounds_iff_confined {σ β : Type} {p : Parser σ β} :
    p.InBounds ↔ p.Confined fun _ => True := by
  constructor
  · intro h c hc s r hr
    have hb := h c s r hc hr
    refine ⟨fun e he => ?_, fun _ _ => trivial, fun a ha => ?_⟩
    · cases e with
      | entering name o =>
        obtain ⟨hv, hle, -⟩ := hb.entering name o he
        exact ⟨rfl, hv, hle⟩
      | _ => trivial
    · cases a with
      | ok v d =>
        obtain ⟨hs, hv, hle, -⟩ := hb.ok v d ha
        exact ⟨hs, hv, hle⟩
      | fail e =>
        obtain ⟨hs, hv, hle, -⟩ := hb.fail e ha
        refine ⟨hs, ?_, hle⟩
        rw [← hs] at hv
        exact hv
  · intro h c s r hc hr
    obtain ⟨hl, -, hq⟩ := h c hc s r hr
    refine ⟨fun v d ha => ?_, fun e ha => ?_, fun name o he => ?_⟩
    · have hd : c.Reaches d := hq _ ha
      exact ⟨hd.source, hd.valid, hd.le, hd.offset_le⟩
    · have hd : c.Reaches e.cursor := hq _ ha
      exact ⟨hd.source, hd.isBoundary, hd.le, hd.offset_le⟩
    · have hd : c.Reaches ⟨c.source, o⟩ := hl _ he
      exact ⟨hd.isBoundary, hd.le, hd.offset_le⟩

/-- The foreign parsers are confined, those that run another parser as far as that one is. -/
structure Foreign.Confined {κ ω σ α : Type} (E : Rule → Prop) (foreign : Foreign κ ω σ α) : Prop where
  leaf : ∀ k, (foreign.leaf k).Confined E
  wrap : ∀ w p, p.Confined E → (foreign.wrap w p).Confined E

namespace Grammar

open Peg.Parser (Confined)

variable {κ ω σ α : Type} {env : Env κ ω σ α}

theorem eval_confined {E : Rule → Prop} {g₀ : Grammar κ ω α} (hf : env.toForeign.Confined E)
    (hE : ∀ r, Uses env.body? g₀ (.rule r) → env.body? r.slot = none → E r) :
    ∀ n g, Uses env.body? g₀ g → Confined E (eval env n g) := by
  intro n
  induction n with
  | zero => exact fun g _ c _ => .unfinished
  | succ n ih =>
    intro g hg
    have hpart : ∀ k ∈ g.children, Confined E (eval env n k) := fun k hk => ih k (hg.part hk)
    cases g with
    | single test => exact (Confined.single test).map _
    | eof => exact Confined.eof.map _
    | leaf k => exact hf.leaf k
    | seq gs => exact (Confined.seq (List.forall_mem_map.2 hpart)).map _
    | alternative gs => exact Confined.alternative (List.forall_mem_map.2 hpart)
    | and a b =>
      have ha := hpart a (by simp [children])
      have hb := hpart b (by simp [children])
      exact (ha.and hb).map _
    | or a b =>
      have ha := hpart a (by simp [children])
      have hb := hpart b (by simp [children])
      exact ha.or hb
    | optional g => exact (hpart g (by simp [children])).optional.map _
    | many0 g => exact ((hpart g (by simp [children])).many0 n).map _
    | many1 g => exact ((hpart g (by simp [children])).many1 n).map _
    | not g => exact (hpart g (by simp [children])).not.map _
    | map f g => exact (hpart g (by simp [children])).map f
    | span g => exact (hpart g (by simp [children])).withSpan.map _
    | wrap w g => exact hf.wrap w _ (hpart g (by simp [children]))
    | lookahead l =>
      refine Confined.lookahead ?_ ?_ ?_
      · intro p hp
        obtain ⟨g, hg, rfl⟩ := Option.map_eq_some_iff.1 hp
        exact hpart g (otherwise_mem_children hg)
      · exact List.forall_mem_map.2 fun a ha => hpart a.look (look_mem_children ha)
      · exact List.forall_mem_map.2 fun a ha => hpart a.step (step_mem_children ha)
    | rule r =>
      refine Confined.invoke ?_ ?_
      · intro hnone
        exact hE r hg (Option.map_eq_none_iff.1 hnone)
      · intro p hp
        obtain ⟨b, hb, rfl⟩ := Option.map_eq_some_iff.1 hp
        exact ih b (hg.body hb)

theorem undefined_of_aborted {body? : Nat → Option (Grammar Empty Empty α)}
    {g : Grammar Empty Empty α} {c : Cursor} (hc : c.Valid) {r : Run Unit (Answer (Value α))}
    (h : Runs (.ofBodies body?) g c () r) {rule : Rule} (hr : r.result = .error rule) :
    Uses body? g (.rule rule) ∧ body? rule.slot = none := by
  obtain ⟨n, hn⟩ := h
  have hf : (Env.ofBodies body?).toForeign.Confined
      fun rule => Uses body? g (.rule rule) ∧ body? rule.slot = none := ⟨nofun, nofun⟩
  have hcon := eval_confined hf (fun _ hu hd => ⟨hu, hd⟩) n g .self
  exact (hcon c hc () r hn).2.1 rule hr

theorem runs_inBounds (hleaf : ∀ k, (env.leaf k).InBounds)
    (hwrap : ∀ w p, p.InBounds → (env.wrap w p).InBounds) {g : Grammar κ ω α} {c : Cursor}
    (hc : c.Valid) {s : σ} {r : Run σ (Answer (Value α))} (h : Runs env g c s r) :
    r.InBounds c := by
  have hf : env.toForeign.Confined fun _ => True := by
    refine ⟨fun k => Parser.inBounds_iff_confined.1 (hleaf k), fun w p hp => ?_⟩
    exact Parser.inBounds_iff_confined.1 (hwrap w p (Parser.inBounds_iff_confined.2 hp))
  obtain ⟨n, hn⟩ := h
  have hcon := eval_confined hf (fun _ _ _ => trivial) n g .self
  exact Parser.inBounds_iff_confined.2 hcon c s r hc hn

/-- A foreign parser that takes any one character, and one rule, for digits. -/
def skipEnv : Env Unit Empty Unit Nat where
  leaf _ c := pure (.ok .unit c.next)
  wrap := nofun
  body? _ := some (.many1 (.single CharClass.isDigit))

theorem inBounds_skipEnv_leaf (k : Unit) : (skipEnv.leaf k).InBounds := by
  rw [Parser.inBounds_iff_confined]
  intro c hc
  exact .pure (Cursor.Reaches.next hc)

/-- The rule is entered, and fails, behind the first character, which is two bytes long. -/
theorem runs_inBounds_skip_digits :
    (∀ k, (skipEnv.leaf k).InBounds) ∧ (Cursor.start "ñ)").Valid ∧
      ∃ r, Runs skipEnv (.and (.leaf ()) (.rule ⟨"digits", 0⟩)) (.start "ñ)") () r ∧
        r.result = .ok (.fail ⟨.atLeastOne, ⟨"ñ)", 2⟩⟩) ∧ r.log.toList = [.entering "digits" 2] ∧
        r.InBounds (.start "ñ)") := by
  have hr : Runs skipEnv (.and (.leaf ()) (.rule ⟨"digits", 0⟩)) (.start "ñ)") () _ := ⟨5, rfl⟩
  refine ⟨inBounds_skipEnv_leaf, Cursor.valid_start _, _, hr, rfl, rfl, ?_⟩
  exact runs_inBounds inBounds_skipEnv_leaf nofun (Cursor.valid_start _) hr

end Grammar
end Peg
