import Announcer.Grammar.Edit
import Announcer.Proofs.Grammar.Reached
import Mathlib

/-! # Edits in a row

An insertion reads all its templates before it changes anything, so it either gives its name a new
rule or leaves the grammar alone. After any edits each name has the alternatives of the last edit
that succeeded and defined it.
-/
namespace Announcer

theorem mapM_eq_error_iff {α β ε : Type} {f : α → Except ε β} {xs : List α} {e : ε} :
    xs.mapM f = .error e ↔ ∃ before x after, xs = before ++ x :: after ∧
      (∀ y ∈ before, ∃ z, f y = .ok z) ∧ f x = .error e := by
  induction xs with
  | nil => simp [pure, Except.pure]
  | cons first rest ih =>
    rw [List.mapM_cons]
    cases hfirst : f first with
    | error mistake =>
      constructor
      · intro h
        cases h
        exact ⟨[], first, rest, rfl, by simp, hfirst⟩
      · rintro ⟨before, x, after, hxs, hbefore, hx⟩
        cases before with
        | nil =>
          obtain ⟨rfl, -⟩ := List.cons.inj hxs
          rw [hfirst] at hx
          cases hx
          rfl
        | cons y before =>
          obtain ⟨rfl, -⟩ := List.cons.inj hxs
          obtain ⟨z, hz⟩ := hbefore first (by simp)
          rw [hfirst] at hz
          cases hz
    | ok t =>
      have hrest : (do let y ← Except.ok t; let ys ← rest.mapM f; pure (y :: ys)) = .error e ↔
          rest.mapM f = .error e := by
        cases rest.mapM f <;> simp [bind, Except.bind, pure, Except.pure]
      rw [hrest, ih]
      constructor
      · rintro ⟨before, x, after, rfl, hbefore, hx⟩
        exact ⟨first :: before, x, after, rfl, List.forall_mem_cons.mpr ⟨⟨t, hfirst⟩, hbefore⟩, hx⟩
      · rintro ⟨before, x, after, hxs, hbefore, hx⟩
        cases before with
        | nil =>
          obtain ⟨rfl, -⟩ := List.cons.inj hxs
          rw [hfirst] at hx
          cases hx
        | cons y before =>
          obtain ⟨-, rfl⟩ := List.cons.inj hxs
          exact ⟨before, x, after, rfl, (List.forall_mem_cons.mp hbefore).2, hx⟩

namespace Table

variable {β : Type}

theorem names_nodup (t : Table β) : t.names.Nodup := by
  rw [names, List.Nodup, List.pairwise_map]
  refine t.ordered.imp fun hlt heq => ?_
  exact String.lt_irrefl _ (heq ▸ hlt)

theorem mem_names_iff {t : Table β} {name : String} :
    name ∈ t.names ↔ ∃ value, t.get? name = some value := by
  simp [names, get?_eq_some_iff]

theorem size_eq_ncard (t : Table β) : t.size = {name | ∃ value, t.get? name = some value}.ncard := by
  have hset : {name | ∃ value, t.get? name = some value} = (t.names.toFinset : Set String) := by
    ext name
    simp [mem_names_iff]
  rw [hset, Set.ncard_coe_finset, List.toFinset_card_of_nodup t.names_nodup, names, List.length_map,
    size]

theorem override_assoc (s t u : Table β) :
    (s.override t).override u = s.override (t.override u) := by
  apply ext_get?
  intro name
  rw [get?_override, get?_override, get?_override, get?_override, Option.or_assoc]

end Table

namespace InPlace

def outcome {α : Type} (change : InPlace α) (g : Grammar) : Except ParseError α × Grammar :=
  Id.run (StateT.run (ExceptT.run change) g)

theorem outcome_bind {α β : Type} (change : InPlace α) (next : α → InPlace β) (g : Grammar) :
    outcome (change >>= next) g =
      match outcome change g with
      | (.ok a, h) => outcome (next a) h
      | (.error mistake, h) => (.error mistake, h) := by
  simp only [outcome, ExceptT.run_bind, StateT.run_bind, Id.run_bind]
  rcases Id.run ((ExceptT.run change).run g) with ⟨_ | _, h⟩ <;> rfl

theorem outcome_readTemplate (text : String) (g : Grammar) :
    outcome (readTemplate text) g = (Template.parse text, g) := by
  unfold readTemplate
  cases Template.parse text <;> rfl

theorem outcome_readTemplates (texts : List String) (g : Grammar) :
    outcome (texts.mapM readTemplate) g = (texts.mapM Template.parse, g) := by
  induction texts with
  | nil => rfl
  | cons text rest ih =>
    rw [List.mapM_cons, List.mapM_cons, outcome_bind, outcome_readTemplate]
    cases Template.parse text with
    | error mistake => rfl
    | ok t =>
      simp only [outcome_bind, ih]
      cases rest.mapM Template.parse <;> rfl

end InPlace

/-- A template that cannot be read, after templates that can. -/
def FirstMistake (texts : List String) (mistake : ParseError) : Prop :=
  ∃ before bad after, texts = before ++ bad :: after ∧
    (∀ text ∈ before, ∃ t, Template.parse text = .ok t) ∧ Template.parse bad = .error mistake

namespace Edit

/-- The edit succeeds and gives the name these alternatives: those that its texts spell, or those of
the grammar that is merged. -/
def Defines : Edit → String → List Template → Prop
  | .insert inserted texts, name, ts => name = inserted ∧ texts.mapM Template.parse = .ok ts
  | .merge other, name, ts => (other.rule? name).map Rule.alternatives = some ts

variable {g : Grammar} {name : String}

theorem run_insert (texts : List String) :
    (insert name texts).run g =
      match g.insertRule name texts with
      | .ok h => (.ok (), h)
      | .error mistake => (.error mistake, g) := by
  change InPlace.outcome (InPlace.insertRule name texts) g = _
  rw [InPlace.insertRule, InPlace.outcome_bind, InPlace.outcome_readTemplates, Grammar.insertRule]
  cases texts.mapM Template.parse <;> rfl

theorem run_merge (other : Grammar) : (merge other).run g = (.ok (), g.merge other) := by
  have hloop : ∀ (rules : List (String × Rule)) (g : Grammar),
      InPlace.outcome (forM rules fun rule =>
        modify fun g => { g with rules := g.rules.insert rule.1 rule.2 }) g =
      (.ok (), { g with rules := rules.foldl (fun t e => t.insert e.1 e.2) g.rules }) := by
    intro rules
    induction rules with
    | nil => exact fun _ => rfl
    | cons rule rest ih =>
      intro g
      rw [List.forM_cons, InPlace.outcome_bind]
      exact ih _
  exact hloop other.rules.entries g

theorem run_cases (edit : Edit) (g : Grammar) :
    (∃ name texts ts, edit = .insert name texts ∧ texts.mapM Template.parse = .ok ts ∧
        edit.run g = (.ok (), { g with rules := g.rules.insert name ⟨name, ts⟩ })) ∨
      (∃ name texts mistake, edit = .insert name texts ∧ FirstMistake texts mistake ∧
        edit.run g = (.error mistake, g)) ∨
      ∃ other, edit = .merge other ∧ edit.run g = (.ok (), g.merge other) := by
  cases edit with
  | merge other => exact .inr (.inr ⟨other, rfl, run_merge other⟩)
  | insert name texts =>
    rw [run_insert, Grammar.insertRule]
    cases hread : texts.mapM Template.parse with
    | ok ts => exact .inl ⟨name, texts, ts, rfl, hread, rfl⟩
    | error mistake =>
      exact .inr (.inl ⟨name, texts, mistake, rfl, mapM_eq_error_iff.mp hread, rfl⟩)

theorem run_modifiers (edit : Edit) (g : Grammar) : (edit.run g).2.modifiers = g.modifiers := by
  rcases run_cases edit g with ⟨_, _, _, -, -, hrun⟩ | ⟨_, _, _, -, -, hrun⟩ | ⟨_, -, hrun⟩ <;>
    simp [hrun, Grammar.merge]

theorem rule?_of_defines {edit : Edit} {ts : List Template} (h : edit.Defines name ts) :
    ((edit.run g).2.rule? name).map Rule.alternatives = some ts := by
  cases edit with
  | insert inserted texts =>
    obtain ⟨rfl, hread⟩ := h
    rw [run_insert, Grammar.insertRule, hread]
    exact congrArg (Option.map Rule.alternatives) (Table.get?_insert_self _ _ _)
  | merge other =>
    rw [run_merge, Grammar.rule?, Grammar.merge, Table.get?_override]
    obtain ⟨rule, hrule, rfl⟩ := Option.map_eq_some_iff.mp h
    have hfound : other.rules.get? name = some rule := hrule
    simp [hfound]

theorem rule?_of_not_defines {edit : Edit} (h : ∀ ts, ¬ edit.Defines name ts) :
    (edit.run g).2.rule? name = g.rule? name := by
  rcases run_cases edit g with ⟨inserted, texts, ts, rfl, hread, hrun⟩ | ⟨_, _, _, -, -, hrun⟩ |
    ⟨other, rfl, hrun⟩
  · have hne : name ≠ inserted := fun heq => h ts ⟨heq, hread⟩
    rw [hrun]
    exact Table.get?_insert_of_ne _ _ hne
  · rw [hrun]
  · have hnone : other.rules.get? name = none := by
      cases hfound : other.rules.get? name with
      | none => rfl
      | some rule => exact absurd (congrArg (Option.map Rule.alternatives) hfound) (h _)
    rw [hrun, Grammar.rule?, Grammar.merge, Table.get?_override, hnone, Option.none_or]
    rfl

theorem rule?_isSome_iff {edit : Edit} :
    (∃ rule, (edit.run g).2.rule? name = some rule) ↔
      (∃ rule, g.rule? name = some rule) ∨ ∃ ts, edit.Defines name ts := by
  by_cases hdefines : ∃ ts, edit.Defines name ts
  · obtain ⟨ts, hts⟩ := hdefines
    obtain ⟨rule, hrule, -⟩ := Option.map_eq_some_iff.mp (rule?_of_defines (g := g) hts)
    exact iff_of_true ⟨rule, hrule⟩ (.inr ⟨ts, hts⟩)
  · rw [rule?_of_not_defines fun ts hts => hdefines ⟨ts, hts⟩]
    simp [hdefines]

end Edit

namespace Grammar

variable {g : Grammar} {name : String}

theorem editAll_append (g : Grammar) (before later : List Edit) :
    g.editAll (before ++ later) = (g.editAll before).editAll later := List.foldl_append

theorem editAll_modifiers (g : Grammar) (edits : List Edit) :
    (g.editAll edits).modifiers = g.modifiers := by
  induction edits generalizing g with
  | nil => rfl
  | cons edit rest ih => exact (ih (edit.run g).2).trans (edit.run_modifiers g)

theorem rule?_editAll_of_not_defined {edits : List Edit}
    (h : ∀ edit ∈ edits, ∀ ts, ¬ edit.Defines name ts) :
    (g.editAll edits).rule? name = g.rule? name := by
  induction edits generalizing g with
  | nil => rfl
  | cons edit rest ih =>
    have hfirst := Edit.rule?_of_not_defines (g := g) (h edit (by simp))
    exact (ih fun other hother => h other (by simp [hother])).trans hfirst

theorem rule?_editAll_isSome_iff {edits : List Edit} :
    (∃ rule, (g.editAll edits).rule? name = some rule) ↔
      (∃ rule, g.rule? name = some rule) ∨ ∃ edit ∈ edits, ∃ ts, edit.Defines name ts := by
  induction edits generalizing g with
  | nil => simp [editAll]
  | cons edit rest ih =>
    change (∃ rule, ((edit.run g).2.editAll rest).rule? name = some rule) ↔ _
    rw [ih, Edit.rule?_isSome_iff, List.exists_mem_cons_iff, or_assoc]

theorem merge_assoc (f g h : Grammar) : (f.merge g).merge h = f.merge (g.merge h) := by
  simp only [merge, Table.override_assoc]

/-- Whatever edits are made: an insertion succeeds with what its texts spell, or it answers with its
first mistake and leaves the grammar as it found it. A name has the alternatives of the last edit
that defined it, and is left alone by the others; there are as many rules as names that had or were
given one. The modifiers stay, and merges may be taken together. -/
theorem last_edit_wins (g : Grammar) (edits : List Edit) :
    (∀ before name texts later, edits = before ++ .insert name texts :: later →
      ((Edit.insert name texts).run (g.editAll before)).1 = .ok () ∧
          (∃ ts, (Edit.insert name texts).Defines name ts) ∨
        ∃ mistake, FirstMistake texts mistake ∧
          (Edit.insert name texts).run (g.editAll before) = (.error mistake, g.editAll before)) ∧
    (∀ before edit later name ts, edits = before ++ edit :: later → edit.Defines name ts →
      (∀ other ∈ later, ∀ us, ¬ other.Defines name us) →
      ((g.editAll edits).rule? name).map Rule.alternatives = some ts) ∧
    (∀ name, (∀ edit ∈ edits, ∀ ts, ¬ edit.Defines name ts) →
      (g.editAll edits).rule? name = g.rule? name) ∧
    (g.editAll edits).rules.size = {name | (∃ rule, g.rule? name = some rule) ∨
      ∃ edit ∈ edits, ∃ ts, edit.Defines name ts}.ncard ∧
    (g.editAll edits).modifiers = g.modifiers ∧
    ∀ a b c : Grammar, (a.merge b).merge c = a.merge (b.merge c) := by
  refine ⟨?_, ?_, ?_, ?_, editAll_modifiers g edits, merge_assoc⟩
  · intro before name texts later _
    rcases Edit.run_cases (.insert name texts) (g.editAll before) with
      ⟨_, _, ts, heq, hread, hrun⟩ | ⟨_, _, mistake, heq, hmistake, hrun⟩ | ⟨other, heq, -⟩
    · cases heq
      exact .inl ⟨by rw [hrun], ts, rfl, hread⟩
    · cases heq
      exact .inr ⟨mistake, hmistake, hrun⟩
    · cases heq
  · rintro before edit later name ts rfl hdefines hlater
    rw [editAll_append]
    change (((edit.run (g.editAll before)).2.editAll later).rule? name).map _ = _
    rw [rule?_editAll_of_not_defined hlater]
    exact Edit.rule?_of_defines hdefines
  · exact fun name h => rule?_editAll_of_not_defined h
  · rw [Table.size_eq_ncard]
    congr 1
    ext name
    exact rule?_editAll_isSome_iff

/-- A rule that is inserted, not replaced, merged over and replaced at last, and one that is merged. -/
def drafts : List Edit := [
  .insert "a" ["x"],
  .insert "a" ["y", "[", "##"],
  .merge { rules := .ofList [("a", ⟨"a", [.literal "z"]⟩), ("b", ⟨"b", [.literal "w"]⟩)],
           modifiers := .empty },
  .insert "a" ["v"]]

/-- The second insertion reads one template and stops at the next. -/
theorem drafts_last_wins :
    (Edit.insert "a" ["y", "[", "##"]).run (empty.editAll [.insert "a" ["x"]]) =
        (.error .unclosedBracket, empty.editAll [.insert "a" ["x"]]) ∧
      ((empty.editAll drafts).rule? "a").map Rule.alternatives = some [.literal "v"] ∧
      ((empty.editAll drafts).rule? "b").map Rule.alternatives = some [.literal "w"] ∧
      (empty.editAll drafts).rule? "c" = none := by
  have hy : Template.parse "y" = .ok (.literal "y") := by cbv
  have hbad : Template.parse "[" = .error .unclosedBracket := by cbv
  have hv : Template.parse "v" = .ok (.literal "v") := by cbv
  have hread : ["y", "[", "##"].mapM Template.parse = .error .unclosedBracket := by
    rw [List.mapM_cons, List.mapM_cons, hy, hbad]
    rfl
  obtain ⟨hinsert, hlast, hkept, -⟩ := last_edit_wins empty drafts
  refine ⟨?_, ?_, ?_, ?_⟩
  · rcases hinsert [.insert "a" ["x"]] "a" ["y", "[", "##"] _ rfl with
      ⟨-, ts, -, hts⟩ | ⟨mistake, hmistake, hrun⟩
    · rw [hread] at hts
      cases hts
    · have hsame := mapM_eq_error_iff.mpr hmistake
      rw [hread] at hsame
      cases hsame
      exact hrun
  · refine hlast (drafts.take 3) (.insert "a" ["v"]) [] "a" _ rfl ⟨rfl, ?_⟩ (by simp)
    rw [List.mapM_cons, hv]
    rfl
  · refine hlast (drafts.take 2) _ [.insert "a" ["v"]] "b" _ rfl rfl fun other hother ts hts => ?_
    obtain rfl := List.mem_singleton.mp hother
    exact absurd hts.1 (by decide)
  · refine hkept "c" fun edit hedit ts hts => ?_
    simp only [drafts, List.mem_cons, List.not_mem_nil, or_false] at hedit
    rcases hedit with rfl | rfl | rfl | rfl
    · exact absurd hts.1 (by decide)
    · exact absurd hts.1 (by decide)
    · cases hts
    · exact absurd hts.1 (by decide)

end Grammar

end Announcer
