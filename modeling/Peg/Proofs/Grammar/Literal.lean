import Peg.Proofs.Grammar.CharRuns

/-!
# Peg.Proofs.Grammar.Literal

Words that are read as they are written, one character after the other.

* `LongestCommon u w cs`: the lists `w` and `cs` agree up to the end of `u`, and no further.
* `literal w`: the characters of `w` in sequence.
* `exists_seq_chars`: how far they are read, by induction on the word.
* `runs_literal`: a literal succeeds exactly where the input goes on with the word. Elsewhere it fails
  behind what the word and the input have in common.
-/

namespace Peg

/-! ## Where two words part -/

structure LongestCommon (u w cs : List Char) : Prop where
  left : u <+: w
  right : u <+: cs
  longest : ∀ u', u' <+: w → u' <+: cs → u' <+: u

namespace LongestCommon

variable {u u' w cs : List Char} {x : Char}

theorem nil : LongestCommon [] [] cs where
  left := List.prefix_rfl
  right := List.nil_prefix
  longest _ h _ := h

theorem parted (h : cs.head? ≠ some x) : LongestCommon [] (x :: w) cs where
  left := List.nil_prefix
  right := List.nil_prefix
  longest u' hw hcs := by
    cases u' with
    | nil => exact List.nil_prefix
    | cons y u' =>
      obtain ⟨rfl, -⟩ := List.cons_prefix_cons.1 hw
      obtain ⟨rest, rfl⟩ := hcs
      exact absurd rfl h

theorem cons (h : LongestCommon u w cs) : LongestCommon (x :: u) (x :: w) (x :: cs) where
  left := List.cons_prefix_cons.2 ⟨rfl, h.left⟩
  right := List.cons_prefix_cons.2 ⟨rfl, h.right⟩
  longest u' hw hcs := by
    cases u' with
    | nil => exact List.nil_prefix
    | cons y u' =>
      obtain ⟨rfl, hw'⟩ := List.cons_prefix_cons.1 hw
      obtain ⟨-, hcs'⟩ := List.cons_prefix_cons.1 hcs
      exact List.cons_prefix_cons.2 ⟨rfl, h.longest u' hw' hcs'⟩

theorem unique (h : LongestCommon u w cs) (h' : LongestCommon u' w cs) : u = u' := by
  have hle : u <+: u' := h'.longest u h.left h.right
  have hge : u' <+: u := h.longest u' h'.left h'.right
  exact hle.eq_of_length_le hge.length_le

theorem eq_left_iff (h : LongestCommon u w cs) : u = w ↔ w <+: cs := by
  constructor
  · rintro rfl
    exact h.right
  · intro hw
    have hle : w <+: u := h.longest w List.prefix_rfl hw
    exact h.left.eq_of_length_le hle.length_le

end LongestCommon

/-! ## Characters in sequence -/

namespace Parser

variable {σ β : Type} {c d : Cursor} {p : Parser σ β} {ps : List (Parser σ β)}

theorem seq_cons_ok {v : β} (h : p c = pure (.ok v d)) :
    seq (p :: ps) c = (seq ps).map (v :: ·) d := by
  rw [seq, andThen, h, pure_bind]

theorem seq_cons_fail {e : ParseError} (h : p c = pure (.fail e)) :
    seq (p :: ps) c = pure (.fail e) := by
  rw [seq, andThen, h, pure_bind]

theorem exists_seq_chars (f : Char → β) (hc : c.Valid) (w : List Char) :
    ∃ u, LongestCommon u w c.remaining.toList ∧
      (seq (w.map fun x => (single (CharClass.isChar x)).map f) c : Parsing σ _) =
        pure (if u = w then .ok (w.map f) ⟨c.source, c.offset + (w.map Char.utf8Size).sum⟩
          else .fail ⟨.predicate, ⟨c.source, c.offset + (u.map Char.utf8Size).sum⟩⟩) := by
  induction w generalizing c with
  | nil => exact ⟨[], .nil, rfl⟩
  | cons x w ih =>
    by_cases hx : c.remaining.toList.head? = some x
    · obtain ⟨cs, hcs⟩ := List.head?_eq_some_iff.1 hx
      obtain ⟨u, hu, hrest⟩ := ih hc.next
      rw [hc.remaining_next hcs] at hu
      rw [Cursor.source_next, hc.offset_next hcs] at hrest
      have hread : ((single (CharClass.isChar x)).map f c : Parsing σ _) = _ :=
        map_single_hit (hc.peek.trans hx) (beq_self_eq_true _)
      refine ⟨x :: u, hcs ▸ hu.cons, ?_⟩
      rw [List.map_cons, seq_cons_ok hread, map, hrest, map_pure]
      simp only [List.cons.injEq, true_and, List.map_cons, List.sum_cons, ← Nat.add_assoc]
      split
      · rfl
      · rfl
    · have hmiss : ∀ ch ∈ c.peek, CharClass.isChar x (some ch) = false := by
        intro ch hch
        rw [hc.peek] at hch
        rw [Option.mem_def.1 hch] at hx
        exact beq_false_of_ne hx
      refine ⟨[], .parted hx, ?_⟩
      rw [List.map_cons, seq_cons_fail (map_single_miss hmiss)]
      rfl

end Parser

namespace Grammar

variable {κ ω σ α : Type} {env : Env κ ω σ α} {c : Cursor} {w : List Char} {n : Nat}

def literal (w : List Char) : Grammar κ ω α := .seq (w.map .char)

theorem exists_eval_literal (env : Env κ ω σ α) (hc : c.Valid) (w : List Char) :
    ∃ u, LongestCommon u w c.remaining.toList ∧
      ∀ n, eval env (n + 2) (literal w) c =
        pure (if w <+: c.remaining.toList then
            .ok (.list (w.map .char)) ⟨c.source, c.offset + (w.map Char.utf8Size).sum⟩
          else .fail ⟨.predicate, ⟨c.source, c.offset + (u.map Char.utf8Size).sum⟩⟩) := by
  obtain ⟨u, hu, hseq⟩ := Parser.exists_seq_chars (σ := σ) (Value.char (α := α)) hc w
  refine ⟨u, hu, fun n => ?_⟩
  change Parser.map Value.list (Parser.seq ((w.map .char).map (eval env (n + 1)))) c = _
  rw [List.map_map]
  change Parser.map Value.list (Parser.seq (w.map fun x => (Parser.single _).map Value.char)) c = _
  rw [Parser.map, hseq, map_pure]
  simp only [hu.eq_left_iff]
  split
  · rfl
  · rfl

theorem runs_literal (hf : env.toForeign.Monotone) (hc : c.Valid) (w : List Char) :
    (∀ s, (∃ v d log s', Runs env (literal w) c s ⟨.ok (.ok v d), log, s'⟩) ↔
      w <+: c.remaining.toList) ∧
    (w <+: c.remaining.toList → ∀ s r, Runs env (literal w) c s r ↔
      r = ⟨.ok (.ok (.list (w.map .char)) ⟨c.source, c.offset + (w.map Char.utf8Size).sum⟩),
        .empty, s⟩) ∧
    (¬ w <+: c.remaining.toList → ∃ u e, LongestCommon u w c.remaining.toList ∧
      e.message = "expected predicate-matched character" ∧
      e.location = ⟨c.source, c.offset + (u.map Char.utf8Size).sum⟩ ∧
      ∀ s r, Runs env (literal w) c s r ↔ r = ⟨.ok (.fail e), .empty, s⟩) := by
  obtain ⟨u, hu, heval⟩ := exists_eval_literal env hc w
  have hrun := fun s r => runs_iff_of_eval (r := r) hf (congrFun (heval 0) s)
  by_cases hw : w <+: c.remaining.toList
  · simp only [if_pos hw] at hrun
    refine ⟨fun s => ⟨fun _ => hw, fun _ => ⟨_, _, _, _, (hrun s _).2 rfl⟩⟩, fun _ => hrun, ?_⟩
    exact fun hn => absurd hw hn
  · simp only [if_neg hw] at hrun
    refine ⟨fun s => ⟨?_, fun h => absurd h hw⟩, fun h => absurd h hw, fun _ => ?_⟩
    · rintro ⟨v, d, log, s', hr⟩
      cases (hrun s _).1 hr
    · exact ⟨u, _, hu, rfl, rfl, hrun⟩

/-- The second word parts from the input in the middle, the third goes on behind its end. -/
theorem runs_literal_accents :
    skipEnv.toForeign.Monotone ∧ (⟨"aéλy", 1⟩ : Cursor).Valid ∧
      Runs skipEnv (literal ['é', 'λ']) ⟨"aéλy", 1⟩ ()
        ⟨.ok (.ok (.list [.char 'é', .char 'λ']) ⟨"aéλy", 5⟩), .empty, ()⟩ ∧
      (∃ e : ParseError, e.message = "expected predicate-matched character" ∧
        e.location = ⟨"aéλy", 3⟩ ∧
        Runs skipEnv (literal ['é', 'n', 'y']) ⟨"aéλy", 1⟩ () ⟨.ok (.fail e), .empty, ()⟩) ∧
      ∃ e : ParseError, e.message = "expected predicate-matched character" ∧
        e.location = ⟨"aéλy", 6⟩ ∧
        Runs skipEnv (literal ['é', 'λ', 'y', 'é']) ⟨"aéλy", 1⟩ () ⟨.ok (.fail e), .empty, ()⟩ := by
  have hf : skipEnv.toForeign.Monotone := Foreign.monotone_of_isEmpty _
  have hc : (⟨"aéλy", 1⟩ : Cursor).Valid := by decide
  have hleft : (⟨"aéλy", 1⟩ : Cursor).remaining.toList = ['é', 'λ', 'y'] := by decide
  have hread := (runs_literal hf hc ['é', 'λ']).2.1 (by rw [hleft]; decide)
  obtain ⟨u, e, hu, hm, hl, hparted⟩ :=
    (runs_literal hf hc ['é', 'n', 'y']).2.2 (by rw [hleft]; decide)
  obtain ⟨u', e', hu', hm', hl', hended⟩ :=
    (runs_literal hf hc ['é', 'λ', 'y', 'é']).2.2 (by rw [hleft]; decide)
  rw [hleft] at hu hu'
  obtain rfl : u = ['é'] := hu.unique (.cons (.parted (by decide)))
  obtain rfl : u' = ['é', 'λ', 'y'] := hu'.unique (.cons (.cons (.cons (.parted (by decide)))))
  exact ⟨hf, hc, (hread _ _).2 rfl, ⟨e, hm, hl, (hparted _ _).2 rfl⟩,
    ⟨e', hm', hl', (hended _ _).2 rfl⟩⟩

end Grammar
end Peg
