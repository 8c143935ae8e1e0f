import Peg.Grammar.Fuel
import Peg.Proofs.Cursor.LongestRun
import Peg.Proofs.Grammar.Confined

/-!
# Peg.Proofs.Grammar.CharRuns

Repetitions of single characters read the longest run of the characters that pass the test. They
write no records and leave the state alone.

* `greedy_single`: the loop, for every bound above the length of the run.
* `eval_spaceBefore`: white space and a grammar behind it are the same computation as the grammar
  alone, started behind the white space.
* `runs_longestRun`: which runs there are, for any test, for words, and behind white space.
-/

namespace Peg

namespace Parser

variable {σ β : Type} {c d : Cursor}

section Rounds

variable {p : Parser σ β} {n : Nat}

theorem greedy_ok {v : β} (h : p c = pure (.ok v d)) :
    greedy p (n + 1) c = (fun (vs, last) => (v :: vs, last)) <$> greedy p n d := by
  rw [greedy, h, pure_bind]

theorem greedy_fail {e : ParseError} (h : p c = pure (.fail e)) :
    greedy p (n + 1) c = pure ([], c) := by
  rw [greedy, h, pure_bind]

end Rounds

variable {f : Char → β} {test : Option Char → Bool}

theorem map_single_hit {ch : Char} (hp : c.peek = some ch) (ht : test (some ch) = true) :
    ((single test).map f c : Parsing σ (Answer β)) = pure (.ok (f ch) c.next) := by
  simp [Parser.map, single, hp, ht, succeed, Answer.map]

/-- The test is asked of characters only; what it says of the end of the input does not matter. -/
theorem map_single_miss (ht : ∀ ch ∈ c.peek, test (some ch) = false) :
    ((single test).map f c : Parsing σ (Answer β)) = pure (.fail (.ofCursor .predicate c)) := by
  cases hp : c.peek with
  | none => simp [Parser.map, single, hp, refuse, Answer.map]
  | some ch => simp [Parser.map, single, hp, ht ch hp, refuse, Answer.map]

/-- By induction on the run; the round behind it is the one that fails. -/
theorem greedy_single {u : List Char} {n : Nat} (hc : c.Valid)
    (h : c.LongestRun (fun ch => test (some ch) = true) u d) (hn : u.length < n) :
    (greedy ((single test).map f) n c : Parsing σ (List β × Cursor)) = pure (u.map f, d) := by
  obtain ⟨n, rfl⟩ : ∃ m, n = m + 1 := ⟨n - 1, by omega⟩
  induction u generalizing c n with
  | nil =>
    obtain rfl := h.eq_of_nil
    have hstop : ∀ ch ∈ d.peek, test (some ch) = false := by
      intro ch hch
      rw [hc.peek] at hch
      simpa using h.stop ch hch
    exact greedy_fail (map_single_miss hstop)
  | cons ch u ih =>
    rw [List.length_cons] at hn
    obtain ⟨n, rfl⟩ : ∃ m, n = m + 1 := ⟨n - 1, by omega⟩
    have hround := map_single_hit (σ := σ) (f := f) (h.peek hc) (h.all ch List.mem_cons_self)
    rw [greedy_ok hround, ih hc.next (h.tail hc) n (by omega), map_pure]
    rfl

end Parser

namespace Grammar

variable {κ ω σ α : Type} {env : Env κ ω σ α} {g : Grammar κ ω α} {c d : Cursor} {u : List Char}
  {n : Nat}

section Repetitions

variable {test : Option Char → Bool}

theorem eval_single : eval env (n + 1) (.single test) = (Parser.single test).map Value.char := rfl

theorem eval_many0_single (hc : c.Valid)
    (h : c.LongestRun (fun ch => test (some ch) = true) u d) (hn : u.length < n) :
    eval env (n + 1) (.many0 (.single test)) c = pure (.ok (.list (u.map .char)) d) := by
  obtain ⟨n, rfl⟩ : ∃ m, n = m + 1 := ⟨n - 1, by omega⟩
  change (Parser.many0 (n + 1) (eval env (n + 1) (.single test))).map Value.list c = _
  rw [eval_single, Parser.map, Parser.many0, Parser.greedy_single hc h hn]
  simp [Answer.map]

theorem eval_many1_single (hc : c.Valid)
    (h : c.LongestRun (fun ch => test (some ch) = true) u d) (hn : u.length < n) :
    eval env (n + 1) (.many1 (.single test)) c =
      pure (if u = [] then .fail (.ofCursor .atLeastOne c) else .ok (.list (u.map .char)) d) := by
  obtain ⟨n, rfl⟩ : ∃ m, n = m + 1 := ⟨n - 1, by omega⟩
  change (Parser.many1 (n + 1) (eval env (n + 1) (.single test))).map Value.list c = _
  rw [eval_single, Parser.map, Parser.many1, Parser.greedy_single hc h hn]
  cases u with
  | nil => simp [Answer.map, Parser.refuse]
  | cons ch u => simp [Answer.map]

end Repetitions

theorem eval_word (hc : c.Valid)
    (h : c.LongestRun (fun ch => CharClass.isAlpha (some ch) = true) u d) (hn : u.length < n) :
    eval env (n + 2) .word c =
      pure (if u = [] then .fail (.ofCursor .atLeastOne c) else .ok (.text (String.ofList u)) d) := by
  change (eval env (n + 1) (.many1 (.single CharClass.isAlpha))).map Value.join c = _
  rw [Parser.map, eval_many1_single hc h hn, map_pure]
  split
  · rfl
  · simp [Answer.map, Value.join_eq, Value.chars_list_char]

theorem eval_spaceBefore (hc : c.Valid)
    (h : c.LongestRun (fun ch => CharClass.isSpace (some ch) = true) u d) (hn : u.length < n) :
    eval env (n + 3) (.spaceBefore g) c = eval env (n + 1) g d := by
  have hspaces : eval env (n + 1) (.many0 (.single CharClass.isSpace)) c = _ :=
    eval_many0_single hc h hn
  have hsecond : ∀ (v : Value α) (a : Answer (Value α)),
      ((a.map (v, ·)).map fun x => Value.pair x.1 x.2).map Value.second = a := by
    rintro v (w | e)
    · rfl
    · rfl
  change (Parser.map (fun v => .pair v.1 v.2)
    (Parser.and (eval env (n + 1) (.many0 (.single CharClass.isSpace)))
      (eval env (n + 1) g))).map Value.second c = _
  simp [Parser.map, Parser.and, Parser.andThen, hspaces, hsecond]

/-! ## Runs -/

variable {s : σ} {r r' : Run σ (Answer (Value α))}

theorem runs_iff_of_eval (hf : env.toForeign.Monotone) (h : eval env n g c s = some r') :
    Runs env g c s r ↔ r = r' :=
  ⟨fun hr => hr.unique hf ⟨n, h⟩, fun hr => hr ▸ ⟨n, h⟩⟩

theorem runs_spaceBefore (hf : env.toForeign.Monotone) (hc : c.Valid)
    (h : c.LongestRun (fun ch => CharClass.isSpace (some ch) = true) u d) :
    Runs env (.spaceBefore g) c s r ↔ Runs env g d s r := by
  constructor
  · rintro ⟨n, hn⟩
    have hmore := eval_extends hf (Nat.le_add_right n (u.length + 4)) (.spaceBefore g) c s r hn
    have hlt : u.length < n + u.length + 1 := by omega
    rw [← Nat.add_assoc n u.length 4, eval_spaceBefore hc h hlt] at hmore
    exact ⟨_, hmore⟩
  · rintro ⟨n, hn⟩
    have hlt : u.length < n + u.length + 1 := by omega
    have hmore := eval_extends hf (Nat.le_add_right n (u.length + 2)) g d s r hn
    refine ⟨n + u.length + 1 + 3, ?_⟩
    rw [eval_spaceBefore hc h hlt]
    exact hmore

theorem runs_longestRun (hf : env.toForeign.Monotone) (hc : c.Valid) :
    (∀ test, ∃ u d, c.LongestRun (fun ch => test (some ch) = true) u d ∧
      ∀ s r, Runs env (.many0 (.single test)) c s r ↔
        r = ⟨.ok (.ok (.list (u.map .char)) d), .empty, s⟩) ∧
    (∃ u d, c.LongestRun (fun ch => 'a' ≤ ch ∧ ch ≤ 'z') u d ∧
      ∀ s r, Runs env .word c s r ↔
        r = ⟨.ok (if u = [] then .fail (.ofCursor .atLeastOne c)
          else .ok (.text (String.ofList u)) d), .empty, s⟩) ∧
    ∃ u d, c.LongestRun (fun ch => ch ∈ [' ', '\t', '\r', '\n']) u d ∧
      ∀ g s r, (Runs env (.spaceBefore g) c s r ↔ Runs env g d s r) ∧
        (Runs env (.spaceBefore (.spaceBefore g)) c s r ↔ Runs env (.spaceBefore g) c s r) := by
  refine ⟨fun test => ?_, ?_, ?_⟩
  · obtain ⟨u, d, h⟩ := Cursor.exists_longestRun (fun ch => test (some ch) = true) hc
    refine ⟨u, d, h, fun s r => runs_iff_of_eval hf (n := u.length + 2) ?_⟩
    rw [eval_many0_single hc h (Nat.lt_succ_self _)]
    rfl
  · obtain ⟨u, d, h⟩ := Cursor.exists_longestRun (fun ch => CharClass.isAlpha (some ch) = true) hc
    simp only [← CharClass.isAlpha_iff]
    refine ⟨u, d, h, fun s r => runs_iff_of_eval hf (n := u.length + 3) ?_⟩
    rw [eval_word hc h (Nat.lt_succ_self _)]
    rfl
  · obtain ⟨u, d, h⟩ := Cursor.exists_longestRun (fun ch => CharClass.isSpace (some ch) = true) hc
    simp only [← CharClass.isSpace_iff]
    refine ⟨u, d, h, fun g s r => ⟨runs_spaceBefore hf hc h, ?_⟩⟩
    -- behind the white space there is no more of it
    rw [runs_spaceBefore hf hc h, runs_spaceBefore hf h.valid h.behind, runs_spaceBefore hf hc h]

/-- Two bytes lie in front of the cursor, and the first test is true of the end of the input. -/
theorem runs_longestRun_greek :
    skipEnv.toForeign.Monotone ∧ (⟨"é \tλ", 2⟩ : Cursor).Valid ∧
      Runs skipEnv (.many0 (.single (· != some 'é'))) ⟨"é \tλ", 2⟩ ()
        ⟨.ok (.ok (.list [.char ' ', .char '\t', .char 'λ']) ⟨"é \tλ", 6⟩), .empty, ()⟩ ∧
      Runs skipEnv .word ⟨"é \tλ", 2⟩ ()
        ⟨.ok (.fail (.ofCursor .atLeastOne ⟨"é \tλ", 2⟩)), .empty, ()⟩ ∧
      ∀ r, Runs skipEnv (.spaceBefore (.leaf ())) ⟨"é \tλ", 2⟩ () r ↔
        Runs skipEnv (.leaf ()) ⟨"é \tλ", 4⟩ () r := by
  have hf : skipEnv.toForeign.Monotone := Foreign.monotone_of_isEmpty _
  have hc : (⟨"é \tλ", 2⟩ : Cursor).Valid := by decide
  have htab : (⟨"é \tλ", 3⟩ : Cursor).Valid := by decide
  have hlambda : (⟨"é \tλ", 4⟩ : Cursor).Valid := by decide
  have hend : (⟨"é \tλ", 6⟩ : Cursor).Valid := by decide
  have hleft₂ : (⟨"é \tλ", 2⟩ : Cursor).remaining.toList = [' ', '\t', 'λ'] := by decide
  have hleft₃ : (⟨"é \tλ", 3⟩ : Cursor).remaining.toList = ['\t', 'λ'] := by decide
  have hleft₄ : (⟨"é \tλ", 4⟩ : Cursor).remaining.toList = ['λ'] := by decide
  have hleft₆ : (⟨"é \tλ", 6⟩ : Cursor).remaining.toList = [] := by decide
  have hnone : Cursor.LongestRun (fun ch => 'a' ≤ ch ∧ ch ≤ 'z') ⟨"é \tλ", 2⟩ [] ⟨"é \tλ", 2⟩ :=
    .nil hc (by simp [hleft₂])
  have hstop : Cursor.LongestRun (fun ch => ch ∈ [' ', '\t', '\r', '\n']) ⟨"é \tλ", 4⟩ []
      ⟨"é \tλ", 4⟩ := .nil hlambda (by simp [hleft₄])
  have hspaces : Cursor.LongestRun (fun ch => ch ∈ [' ', '\t', '\r', '\n']) ⟨"é \tλ", 2⟩
      [' ', '\t'] ⟨"é \tλ", 4⟩ :=
    .cons hc hleft₂ (by decide) (.cons htab hleft₃ (by decide) hstop)
  have hlast : Cursor.LongestRun (fun ch => (some ch != some 'é') = true) ⟨"é \tλ", 6⟩ []
      ⟨"é \tλ", 6⟩ := .nil hend (by simp [hleft₆])
  have hall : Cursor.LongestRun (fun ch => (some ch != some 'é') = true) ⟨"é \tλ", 2⟩
      [' ', '\t', 'λ'] ⟨"é \tλ", 6⟩ :=
    .cons hc hleft₂ (by decide) (.cons htab hleft₃ (by decide)
      (.cons hlambda hleft₄ (by decide) hlast))
  obtain ⟨hmany, ⟨u, d, hu, hword⟩, u', d', hu', hbehind⟩ := runs_longestRun hf hc
  obtain ⟨u'', d'', hu'', hread⟩ := hmany (· != some 'é')
  obtain ⟨rfl, rfl⟩ := hu.unique hnone
  obtain ⟨rfl, rfl⟩ := hu'.unique hspaces
  obtain ⟨rfl, rfl⟩ := hu''.unique hall
  exact ⟨hf, hc, (hread _ _).2 rfl, (hword _ _).2 rfl, fun r => (hbehind _ _ r).1⟩

end Grammar
end Peg
