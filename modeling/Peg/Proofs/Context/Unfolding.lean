import Mathlib.Data.Fintype.EquivFin
import Mathlib.Data.Set.Finite.Lattice
import Mathlib.Logic.Function.Basic
import Peg.Proofs.Context.Basic

/-!
# Peg.Proofs.Context.Unfolding

A reference to a rule can be replaced by the body of the rule.

The references that are replaced are the holes of contexts: `r` is plugged into them before, and the
body of `r` after. They may be anywhere in the grammar and in the bodies of the rules, also in that
of `r`, and other references to `r` are left as they are.

* `runs_unfold`: both run to the same result, if they end, and the log loses the records of entering
  `r` through the holes and no others.

Records do not tell through which reference a rule was entered. To say which ones are lost, a third
grammar enters `r` through the holes under a name `q` of its own (`Avoids q`, `tableAs`). Its log has
all the records, those of the holes under the name `q`. There is such a name if the rules come to an
end (`exists_avoids`).
-/

namespace Peg

def Record.Enters (name : String) (e : Record) : Prop := ∃ offset, e = .entering name offset

instance (name : String) : DecidablePred (Record.Enters name)
  | .entering name' offset =>
    decidable_of_iff (name' = name)
      ⟨fun h => ⟨offset, by rw [h]⟩, fun ⟨_, h⟩ => (Record.entering.inj h).1⟩
  | .defined _ | .started _ | .succeeded _ | .failed _ | .probed _ _ | .probeOk _ _ _
  | .probeFail _ _ _ => isFalse nofun

/-- The record with `name'` in place of `name`, if it is one of entering a rule. -/
def Record.relabel (name name' : String) : Record → Record
  | .entering n offset => .entering (if n = name then name' else n) offset
  | e => e

namespace Grammar

variable {α : Type} {ctx? : Nat → Option (Context α)} {r q : Rule} {b g : Context α}

/-- The grammar is no reference to a rule with the slot or the name of `q`. -/
def Avoids (q : Rule) : Context α → Prop
  | .rule p => p.slot ≠ q.slot ∧ p.name ≠ q.name
  | _ => True

theorem avoids_of_ne_rule (j : Context α) (hj : ∀ p, j ≠ .rule p) : Avoids q j := by
  cases j with
  | rule p => exact absurd rfl (hj p)
  | _ => trivial

theorem finite_references {κ ω : Type} (g : Grammar κ ω α) : {p | Part g (.rule p)}.Finite := by
  induction g using Grammar.induct with
  | step g ih =>
    have hself : {p : Rule | .rule p = g}.Finite :=
      Set.Subsingleton.finite fun p hp p' hp' => Grammar.rule.inj (Eq.trans hp (Eq.symm hp'))
    have hparts : (⋃ k ∈ {k | k ∈ g.children}, {p | Part k (.rule p)}).Finite :=
      (List.finite_toSet g.children).biUnion ih
    refine (hself.union hparts).subset fun p hp => ?_
    rcases part_iff.1 hp with h | ⟨k, hk, h⟩
    · exact .inl h
    · exact .inr (Set.mem_biUnion hk h)

/-- Where there is an end to the rules, there is a name, and a slot, that no reference has. -/
theorem exists_avoids {n : Nat} (hn : ∀ slot b, ctx? slot = some b → slot < n)
    (gs : List (Context α)) : ∃ q, ∀ g ∈ gs, Throughout ctx? (Avoids q) g := by
  have hbodies : (⋃ slot ∈ {slot | slot < n}, {b | ctx? slot = some b}).Finite :=
    (Set.finite_lt_nat n).biUnion fun slot _ =>
      Set.Subsingleton.finite fun b hb b' hb' => Option.some.inj (Eq.trans (Eq.symm hb) hb')
  have hrefs := ((List.finite_toSet gs).union hbodies).biUnion fun k _ => finite_references k
  obtain ⟨name, hname⟩ := (hrefs.image Rule.name).exists_notMem
  obtain ⟨slot, hslot⟩ := (hrefs.image Rule.slot).exists_notMem
  have havoids : ∀ k, k ∈ gs ∨ (∃ s, ctx? s = some k) → ∀ j, Part k j → Avoids ⟨name, slot⟩ j := by
    intro k hk j hp
    cases j with
    | rule p =>
      have hmem : p ∈ ⋃ k ∈ {k | k ∈ gs} ∪ ⋃ s ∈ {s | s < n}, {b | ctx? s = some b},
          {p | Part k (.rule p)} := by
        refine Set.mem_biUnion ?_ hp
        rcases hk with hk | ⟨s, hs⟩
        · exact .inl hk
        · exact .inr (Set.mem_biUnion (hn s k hs) hs)
      exact ⟨fun h => hslot ⟨p, hmem, h⟩, fun h => hname ⟨p, hmem, h⟩⟩
    | _ => trivial
  exact ⟨⟨name, slot⟩, fun g hg => .of_parts (havoids g (.inl hg)) fun s b hb =>
    havoids b (.inr ⟨s, hb⟩)⟩

/-- The table of rules with `q` in every hole. The body of `q` is what is plugged in when references
are replaced: the body of `r`, which refers to `r` by its own name. -/
def tableAs (q r : Rule) (b : Context α) (ctx? : Nat → Option (Context α)) :
    Nat → Option (Grammar Empty Empty α) :=
  Function.update (plugged (.rule q) ctx?) q.slot (some (plug (.rule r) b))

theorem tableAs_slot : tableAs q r b ctx? q.slot = some (plug (.rule r) b) :=
  Function.update_self ..

theorem tableAs_of_ne {slot : Nat} (h : slot ≠ q.slot) :
    tableAs q r b ctx? slot = plugged (.rule q) ctx? slot :=
  Function.update_of_ne h ..

/-- Either one filling in front of the other, or both sides with `r` as it is. -/
inductive Fills (r : Rule) (h h' : Grammar Empty Empty α) :
    Grammar Empty Empty α → Grammar Empty Empty α → Prop
  | holes : Fills r h h' h h'
  | same : Fills r h h' (.rule r) (.rule r)

section Body

variable {P : Context α → Prop} {h h' : Grammar Empty Empty α} {rule : Rule → Rule → Prop}
  {record : Record → Record → Prop} {first : Record → Prop}
  {body? body?' : Nat → Option (Grammar Empty Empty α)}

theorem body_abreast (hb : Throughout ctx? P b) (hr : rule r r)
    (hrule : ∀ p, Throughout ctx? P (.rule p) → rule p p)
    (htail : ∀ j : Context α, (∀ p, j ≠ .rule p) → P j) :
    (fillings ctx? P (Fills r h h') rule record first).Abreast body? body?'
      (plug (.rule r) b) (plug (.rule r) b) :=
  fillings_abreast hb .same hrule (.rule hr) htail

theorem rel_plugged {p : Rule} (hp : Throughout ctx? P (.rule p)) :
    Option.Rel (fillings ctx? P (Fills r h h') rule record first).grammar
      (plugged h ctx? p.slot) (plugged h' ctx? p.slot) := by
  unfold plugged
  cases hk : ctx? p.slot with
  | none => exact .none
  | some k => exact .some ⟨k, h, h', hp.body hk, .holes, rfl, rfl⟩

end Body

/-! ## The reference and the body -/

def unfolding (ctx? : Nat → Option (Context α)) (r : Rule) (b : Context α) : Pairing α α :=
  fillings ctx? (fun _ => True) (Fills r (.rule r) (plug (.rule r) b)) Eq Eq (Record.Enters r.name)

theorem simulation_unfolding (hb : ctx? r.slot = some b) :
    (unfolding ctx? r b).Simulation (plugged (.rule r) ctx?) (plugged (plug (.rule r) b) ctx?) where
  layer := by
    rintro _ _ ⟨k, h, h', hk, hfill, rfl, rfl⟩
    refine fillings_abreast hk hfill (fun _ _ => rfl) ?_ fun _ _ => trivial
    cases hfill with
    | holes =>
      refine .dropRule (plugged_eq_some hb) (fun o => ⟨o, rfl⟩) ?_
      exact body_abreast (fun _ _ => trivial) rfl (fun _ _ => rfl) fun _ _ => trivial
    | same => exact .rule rfl
  body := by
    rintro p _ rfl
    exact rel_plugged fun _ _ => trivial
  undefined h _ := h
  entering := by
    rintro p _ o rfl
    rfl

theorem log_of_unfolding {l l' : List Record} (h : (unfolding ctx? r b).Records l l') :
    l'.Sublist l ∧
      l'.filter (fun e => ¬ e.Enters r.name) = l.filter fun e => ¬ e.Enters r.name := by
  induction h with
  | nil => exact ⟨.slnil, rfl⟩
  | both he _ ih =>
    obtain rfl := he
    exact ⟨ih.1.cons_cons _, by rw [List.filter_cons, List.filter_cons, ih.2]⟩
  | first he _ ih =>
    have hentry : Record.Enters r.name _ := he
    exact ⟨ih.1.cons _, by rw [ih.2, List.filter_cons_of_neg (by simpa using hentry)]⟩
  | second he _ _ => exact he.elim

/-! ## The holes under a name of their own -/

/-- Which reference is entered where the holes are called `q`, and which where they are `r`. -/
inductive Relabels (ctx? : Nat → Option (Context α)) (q r : Rule) : Rule → Rule → Prop
  | holes : Relabels ctx? q r q r
  | same {p : Rule} : Throughout ctx? (Avoids q) (.rule p) → Relabels ctx? q r p p

def relabeling (ctx? : Nat → Option (Context α)) (q r : Rule) : Pairing α α :=
  fillings ctx? (Avoids q) (Fills r (.rule q) (.rule r)) (Relabels ctx? q r)
    (fun e e' => e.relabel q.name r.name = e') fun _ => False

theorem simulation_relabeling (hb : ctx? r.slot = some b)
    (hr : Throughout ctx? (Avoids q) (.rule r)) :
    (relabeling ctx? q r).Simulation (tableAs q r b ctx?) (plugged (.rule r) ctx?) where
  layer := by
    rintro _ _ ⟨k, h, h', hk, hfill, rfl, rfl⟩
    refine fillings_abreast hk hfill (fun _ hp => .same hp) ?_ avoids_of_ne_rule
    cases hfill with
    | holes => exact .rule .holes
    | same => exact .rule (.same hr)
  body := by
    rintro p p' (_ | hp)
    · rw [tableAs_slot, plugged_eq_some hb]
      exact .some ⟨b, _, _, hr.body hb, .same, rfl, rfl⟩
    · rw [tableAs_of_ne hp.here.1]
      exact rel_plugged hp
  undefined := by
    rintro p p' (_ | hp) hnone
    · rw [tableAs_slot] at hnone
      cases hnone
    · rfl
  entering := by
    rintro p p' o (_ | hp)
    · exact congrArg (Record.entering · o) (if_pos rfl)
    · exact congrArg (Record.entering · o) (if_neg hp.here.2)

theorem log_of_relabeling {l l' : List Record} (h : (relabeling ctx? q r).Records l l') :
    l' = l.map (Record.relabel q.name r.name) := by
  rw [← List.filterMap_eq_map]
  exact h.eq_filterMap (fun _ _ he => congrArg some he) (fun _ he => False.elim he) fun _ he => he

def erasing (ctx? : Nat → Option (Context α)) (q r : Rule) (b : Context α) : Pairing α α :=
  fillings ctx? (Avoids q) (Fills r (.rule q) (plug (.rule r) b))
    (fun p p' => p = p' ∧ Throughout ctx? (Avoids q) (.rule p))
    (fun e e' => e = e' ∧ ¬ e.Enters q.name) (Record.Enters q.name)

theorem simulation_erasing (hb : ctx? r.slot = some b)
    (hr : Throughout ctx? (Avoids q) (.rule r)) :
    (erasing ctx? q r b).Simulation (tableAs q r b ctx?) (plugged (plug (.rule r) b) ctx?) where
  layer := by
    rintro _ _ ⟨k, h, h', hk, hfill, rfl, rfl⟩
    refine fillings_abreast hk hfill (fun _ hp => ⟨rfl, hp⟩) ?_ avoids_of_ne_rule
    cases hfill with
    | holes =>
      refine .dropRule tableAs_slot (fun o => ⟨o, rfl⟩) ?_
      exact body_abreast (hr.body hb) ⟨rfl, hr⟩ (fun _ hp => ⟨rfl, hp⟩) avoids_of_ne_rule
    | same => exact .rule ⟨rfl, hr⟩
  body := by
    rintro p _ ⟨rfl, hp⟩
    rw [tableAs_of_ne hp.here.1]
    exact rel_plugged hp
  undefined h _ := h.1
  entering := by
    rintro p _ o ⟨rfl, hp⟩
    refine ⟨rfl, ?_⟩
    rintro ⟨o', he⟩
    exact hp.here.2 (Record.entering.inj he).1

theorem log_of_erasing {l l' : List Record} (h : (erasing ctx? q r b).Records l l') :
    l' = l.filter fun e => ¬ e.Enters q.name := by
  rw [← List.filterMap_eq_filter]
  refine h.eq_filterMap (fun e e' he => ?_) (fun e he => ?_) fun _ he => he
  · obtain ⟨rfl, he⟩ := he
    simp [Option.guard, he]
  · have hentry : e.Enters q.name := he
    simp [Option.guard, hentry]

/-! ## Runs -/

theorem eq_of_runs_relabeling (hb : ctx? r.slot = some b)
    (hg : Throughout ctx? (Avoids q) g) (hr : Throughout ctx? (Avoids q) (.rule r)) {c : Cursor}
    {run : Run Unit (Answer (Value α))}
    (h : Runs (.ofBodies (plugged (.rule r) ctx?)) (plug (.rule r) g) c () run) :
    ∃ log, Runs (.ofBodies (tableAs q r b ctx?)) (plug (.rule q) g) c () ⟨run.result, log, ()⟩ ∧
      run.log.toList = log.toList.map (Record.relabel q.name r.name) := by
  have hgrammar : (relabeling ctx? q r).grammar (plug (.rule q) g) (plug (.rule r) g) :=
    ⟨g, _, _, hg, .holes, rfl, rfl⟩
  obtain ⟨hends, hruns⟩ := (simulation_relabeling hb hr).runs hgrammar c
  obtain ⟨⟨result, log, u⟩, hmarked⟩ := hends.2 ⟨run, h⟩
  obtain ⟨hresult, hlog⟩ := hruns _ _ hmarked h
  obtain rfl : result = run.result := eq_of_results_fillings hresult
  exact ⟨log, hmarked, log_of_relabeling hlog⟩

theorem log_of_runs_erasing (hb : ctx? r.slot = some b)
    (hg : Throughout ctx? (Avoids q) g) (hr : Throughout ctx? (Avoids q) (.rule r)) {c : Cursor}
    {run run' : Run Unit (Answer (Value α))}
    (h : Runs (.ofBodies (tableAs q r b ctx?)) (plug (.rule q) g) c () run)
    (h' : Runs (.ofBodies (plugged (plug (.rule r) b) ctx?)) (plug (plug (.rule r) b) g) c ()
      run') :
    run'.log.toList = run.log.toList.filter fun e => ¬ e.Enters q.name := by
  have hgrammar : (erasing ctx? q r b).grammar (plug (.rule q) g) (plug (plug (.rule r) b) g) :=
    ⟨g, _, _, hg, .holes, rfl, rfl⟩
  exact log_of_erasing (((simulation_erasing hb hr).runs hgrammar c).2 _ _ h h').2

theorem runs_unfold (hb : ctx? r.slot = some b) (c : Cursor) :
    ((∃ run, Runs (.ofBodies (plugged (.rule r) ctx?)) (plug (.rule r) g) c () run) ↔
      ∃ run', Runs (.ofBodies (plugged (plug (.rule r) b) ctx?)) (plug (plug (.rule r) b) g) c ()
        run') ∧
    ∀ run run', Runs (.ofBodies (plugged (.rule r) ctx?)) (plug (.rule r) g) c () run →
      Runs (.ofBodies (plugged (plug (.rule r) b) ctx?)) (plug (plug (.rule r) b) g) c () run' →
      run'.result = run.result ∧ run'.log.toList.Sublist run.log.toList ∧
      run'.log.toList.filter (fun e => ¬ e.Enters r.name) =
        run.log.toList.filter (fun e => ¬ e.Enters r.name) ∧
      ∀ q, Throughout ctx? (Avoids q) g → Throughout ctx? (Avoids q) (.rule r) →
        ∃ log, Runs (.ofBodies (tableAs q r b ctx?)) (plug (.rule q) g) c () ⟨run.result, log, ()⟩ ∧
          run.log.toList = log.toList.map (Record.relabel q.name r.name) ∧
          run'.log.toList = log.toList.filter fun e => ¬ e.Enters q.name := by
  have hgrammar : (unfolding ctx? r b).grammar (plug (.rule r) g) (plug (plug (.rule r) b) g) :=
    ⟨g, _, _, fun _ _ => trivial, .holes, rfl, rfl⟩
  obtain ⟨hends, hruns⟩ := (simulation_unfolding hb).runs hgrammar c
  refine ⟨hends, fun run run' h h' => ?_⟩
  obtain ⟨hresult, hlog⟩ := hruns run run' h h'
  obtain ⟨hsub, hrest⟩ := log_of_unfolding hlog
  refine ⟨(eq_of_results_fillings hresult).symm, hsub, hrest, fun q hg hr => ?_⟩
  obtain ⟨log, hmarked, hlog⟩ := eq_of_runs_relabeling hb hg hr h
  exact ⟨log, hmarked, hlog, log_of_runs_erasing hb hg hr hmarked h'⟩

/-- An `x` in parentheses, as many as one likes. -/
def nest {κ : Type} (inner : Grammar κ Empty Unit) : Grammar κ Empty Unit :=
  .alternative [.seq [.char '(', inner, .char ')'], .char 'x']

def nestBody {κ : Type} (inner : Grammar κ Empty Unit) : Nat → Option (Grammar κ Empty Unit)
  | 0 => some (nest inner)
  | _ => none

theorem plug_nest (h : Grammar Empty Empty Unit) : plug h (nest hole) = nest h := by
  simp [nest, plug, char]

theorem plugged_nestBody (h : Grammar Empty Empty Unit) :
    plugged h (nestBody hole) = nestBody h := by
  funext slot
  cases slot with
  | zero => exact congrArg some (plug_nest h)
  | succ slot => rfl

theorem tableAs_nestBody :
    tableAs ⟨"hole", 1⟩ ⟨"nest", 0⟩ (nest hole) (nestBody hole) =
      Function.update (nestBody (.rule ⟨"hole", 1⟩)) 1 (some (nest (.rule ⟨"nest", 0⟩))) := by
  rw [tableAs, plugged_nestBody, plug_nest]

theorem throughout_nestBody {g : Context Unit} (hg : ∀ h, Part g h → Avoids ⟨"hole", 1⟩ h) :
    Throughout (nestBody hole) (Avoids ⟨"hole", 1⟩) g := by
  refine .of_parts hg fun slot b hb => ?_
  cases slot with
  | zero =>
    cases hb
    intro h hp
    simp only [nest, part_alternative, List.mem_cons, List.not_mem_nil, or_false, exists_eq_or_imp,
      exists_eq_left, part_seq, part_char, part_hole] at hp
    rcases hp with rfl | (rfl | rfl | rfl | rfl) | rfl
    all_goals trivial
  | succ slot => cases hb

/-- Of two references the first is replaced, as is the one in the body. What is entered there is
entered without a record, but the body in place of the first reference still refers to the rule. -/
theorem runs_unfold_nest :
    nestBody hole 0 = some (nest hole) ∧
    ∃ run', Runs (.ofBodies (plugged (plug (.rule ⟨"nest", 0⟩) (nest hole)) (nestBody hole)))
        (plug (plug (.rule ⟨"nest", 0⟩) (nest hole)) (.and hole (.rule ⟨"nest", 0⟩)))
        ⟨"((x))x", 0⟩ () run' ∧
      run'.log.toList = [.entering "nest" 1, .entering "nest" 5] := by
  have hb : nestBody hole 0 = some (nest hole) := rfl
  have hg : Throughout (nestBody hole) (Avoids ⟨"hole", 1⟩) (.and hole (.rule ⟨"nest", 0⟩)) := by
    refine throughout_nestBody fun h hp => ?_
    simp only [part_and, part_hole, part_rule] at hp
    rcases hp with rfl | rfl | rfl
    · trivial
    · trivial
    · simp [Avoids]
  have hr : Throughout (nestBody hole) (Avoids ⟨"hole", 1⟩) (.rule ⟨"nest", 0⟩) :=
    throughout_nestBody (by simp [Avoids])
  have hplug (h : Grammar Empty Empty Unit) :
      plug h (.and hole (.rule ⟨"nest", 0⟩)) = .and h (.rule ⟨"nest", 0⟩) := by
    simp [plug]
  obtain ⟨run, hrun⟩ : ∃ run, Runs (.ofBodies (nestBody (.rule ⟨"nest", 0⟩)))
      (.and (.rule ⟨"nest", 0⟩) (.rule ⟨"nest", 0⟩)) ⟨"((x))x", 0⟩ () run :=
    ⟨⟨_, _, ()⟩, 12, rfl⟩
  rw [← plugged_nestBody, ← hplug] at hrun
  obtain ⟨marked, hmarked, hlog⟩ : ∃ marked,
      Runs (.ofBodies (Function.update (nestBody (.rule ⟨"hole", 1⟩)) 1
          (some (nest (.rule ⟨"nest", 0⟩)))))
        (.and (.rule ⟨"hole", 1⟩) (.rule ⟨"nest", 0⟩)) ⟨"((x))x", 0⟩ () marked ∧
      marked.log.toList.filter (fun e => ¬ e.Enters "hole") =
        [.entering "nest" 1, .entering "nest" 5] :=
    ⟨⟨_, _, ()⟩, ⟨12, rfl⟩, rfl⟩
  rw [← tableAs_nestBody, ← hplug] at hmarked
  obtain ⟨hends, hruns⟩ :=
    runs_unfold (r := ⟨"nest", 0⟩) (g := .and hole (.rule ⟨"nest", 0⟩)) hb ⟨"((x))x", 0⟩
  obtain ⟨run', hrun'⟩ := hends.1 ⟨run, hrun⟩
  obtain ⟨-, -, -, hexact⟩ := hruns run run' hrun hrun'
  obtain ⟨log, hruns_marked, -, herased⟩ := hexact ⟨"hole", 1⟩ hg hr
  obtain rfl := hmarked.unique (Foreign.monotone_of_isEmpty _) hruns_marked
  exact ⟨hb, run', hrun', herased.trans hlog⟩

end Grammar
end Peg
