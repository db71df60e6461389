import Announcer.Proofs.Chance.Script
import Announcer.Proofs.Expansion.Contract
import Announcer.Proofs.Template.RoundTrip
import Mathlib

/-! # The depth limit

The number of levels left is asked for nowhere but where none is left. So a higher limit changes
nothing about an expansion that a lower one lets through. The limit is met exactly: as many rules
that lead to one another and as many pushes inside each other are expanded as it says, and no more.
-/
namespace Announcer

open Chance (ChoiceSource Script)

namespace Expansion

section Cuts

variable {σ α β : Type} {low high levels more : ℕ} {g : Grammar}

/-- The first expansion fails for its limit, or both end alike. -/
def Cuts (low : ℕ) (m n : Expansion σ α) : Prop :=
  ∀ s, (outcome m s).1 = .error (.recursionLimit low) ∨ outcome n s = outcome m s

theorem cuts_refl (m : Expansion σ α) : Cuts low m m := fun _ => .inr rfl

theorem Cuts.bind {m n : Expansion σ α} {f k : α → Expansion σ β} (h : Cuts low m n)
    (hf : ∀ a, Cuts low (f a) (k a)) : Cuts low (m >>= f) (n >>= k) := by
  intro s
  rw [outcome_bind, outcome_bind]
  rcases h s with hcut | hsame
  · left
    cases hend : outcome m s with
    | mk result t =>
      rw [hend] at hcut
      cases result with
      | ok a => cases hcut
      | error e =>
        cases hcut
        rfl
  · rw [hsame]
    cases hend : outcome m s with
    | mk result t =>
      cases result with
      | ok a => exact hf a t
      | error e => exact .inr rfl

theorem cuts_mapM {f k : α → Expansion σ β} {xs : List α} (h : ∀ x, Cuts low (f x) (k x)) :
    Cuts low (xs.mapM f) (xs.mapM k) := by
  induction xs with
  | nil => exact cuts_refl _
  | cons x rest ih =>
    rw [List.mapM_cons, List.mapM_cons]
    apply Cuts.bind (h x)
    intro y
    apply Cuts.bind ih
    intro ys
    exact cuts_refl _

section Deeper

variable {lower higher : Template → Expansion σ String}
  (hdeeper : ∀ t, Cuts low (lower t) (higher t))

include hdeeper

theorem cuts_runAction (a : Action) : Cuts low (runAction lower a) (runAction higher a) := by
  cases a with
  | push key rules => exact (cuts_mapM hdeeper).bind fun _ => cuts_refl _
  | pop key => exact cuts_refl _

theorem cuts_runActions (actions : List Action) (keys : List String) :
    Cuts low (runActions lower actions keys) (runActions higher actions keys) := by
  induction actions generalizing keys with
  | nil => exact cuts_refl _
  | cons a rest ih =>
    apply Cuts.bind (cuts_runAction hdeeper a)
    intro _
    cases a with
    | push key rules => exact ih _
    | pop key => exact ih _

variable [ChoiceSource σ]

theorem cuts_expandSymbol (symbol : String) :
    Cuts low (expandSymbol lower g symbol) (expandSymbol higher g symbol) := by
  by_cases hblank : symbol = ""
  · rw [hblank]
    exact cuts_refl _
  · rw [expandSymbol_named hblank, expandSymbol_named hblank]
    exact (cuts_refl _).bind hdeeper

theorem cuts_expandTag (tag : Tag) : Cuts low (expandTag lower g tag) (expandTag higher g tag) := by
  apply Cuts.bind (cuts_runActions hdeeper tag.actions [])
  intro keys
  exact (cuts_expandSymbol hdeeper tag.symbol).bind fun _ => cuts_refl _

theorem cuts_expandSegment (segment : Segment) :
    Cuts low (expandSegment lower g segment) (expandSegment higher g segment) := by
  cases segment with
  | literal text => exact cuts_refl _
  | tag tag => exact cuts_expandTag hdeeper tag
  | action a => exact (cuts_runAction hdeeper a).bind fun _ => cuts_refl _

theorem cuts_expandSegments (segments : List Segment) :
    Cuts low (expandSegments lower g segments) (expandSegments higher g segments) := by
  induction segments with
  | nil => exact cuts_refl _
  | cons segment rest ih =>
    apply Cuts.bind (cuts_expandSegment hdeeper segment)
    intro text
    exact ih.bind fun _ => cuts_refl _

end Deeper

variable [ChoiceSource σ]

/-- With more levels left the end is the same, unless there were too few before. -/
theorem cuts_expandTemplate (t : Template) :
    Cuts (σ := σ) low (expandTemplate g low levels t) (expandTemplate g high (levels + more) t) := by
  induction levels generalizing t with
  | zero => exact fun _ => .inl rfl
  | succ levels ih =>
    rw [Nat.add_right_comm]
    exact cuts_expandSegments ih t.segments

theorem run_of_higher (h : low ≤ high) (t : Template) (source : σ) :
    (run g low t source).1 = .error (.recursionLimit low) ∨
      run g high t source = run g low t source := by
  obtain ⟨more, rfl⟩ := Nat.exists_eq_add_of_le h
  have hcuts : Cuts (σ := σ) low (expandTemplate g low (low + 1) t)
      (expandTemplate g (low + more) (low + 1 + more) t) := cuts_expandTemplate t
  rw [run_eq, run_eq, Nat.add_right_comm low more 1]
  rcases hcuts ⟨.empty, source⟩ with hcut | hsame
  · exact .inl hcut
  · exact .inr (by rw [hsame])

end Cuts

end Expansion

def Template.plainText (t : Template) : String :=
  t.segments.foldr (fun s more => match s with
    | .literal text => text ++ more
    | _ => more) ""

namespace Expansion

section Exact

variable {σ : Type} [ChoiceSource σ] {g : Grammar}

theorem expandSegments_plain {deeper : Template → Expansion σ String} {segments : List Segment}
    (h : segments.all Segment.isLiteral = true) :
    expandSegments deeper g segments = pure (Template.plainText ⟨segments⟩) := by
  induction segments with
  | nil => rfl
  | cons s rest ih =>
    obtain ⟨hs, hrest⟩ := Bool.and_eq_true_iff.mp h
    cases s with
    | literal text => rw [expandSegments, ih hrest]; rfl
    | tag tag => cases hs
    | action a => cases hs

theorem expandTemplate_plain {t : Template} (h : t.isPlain = true) (limit levels : ℕ) :
    (expandTemplate g limit (levels + 1) t : Expansion σ String) = pure t.plainText :=
  expandSegments_plain h

theorem expandTemplate_bare {name : String} (h : name ≠ "") (limit levels : ℕ) :
    (expandTemplate g limit (levels + 1) ⟨[.tag (.bare name)]⟩ : Expansion σ String) =
      select g name >>= expandTemplate g limit levels := by
  rw [expandTemplate_tag rfl, Tag.bare, expandSymbol_named h]
  simp [applyModifiers]

/-- A name has one alternative, which is the tag of the next name and at last the template. -/
inductive LeadsTo (g : Grammar) (t : Template) : String → List String → Prop where
  | last {name rule} : name ≠ "" → g.rule? name = some rule → rule.alternatives = [t] →
      LeadsTo g t name []
  | next {name following rest rule} : name ≠ "" → g.rule? name = some rule →
      rule.alternatives = [⟨[.tag (.bare following)]⟩] → LeadsTo g t following rest →
      LeadsTo g t name (following :: rest)

theorem outcome_bare_single {name : String} {rule : Rule} {t : Template} (hname : name ≠ "")
    (hrule : g.rule? name = some rule) (ht : rule.alternatives = [t]) (limit levels : ℕ)
    (source : σ) : ∃ later,
      outcome (expandTemplate g limit (levels + 1) ⟨[.tag (.bare name)]⟩) ⟨.empty, source⟩ =
        outcome (expandTemplate g limit levels t) ⟨.empty, later⟩ := by
  have honly : alternatives? g .empty name = some [t] := by
    rw [alternatives?_empty, hrule, Option.map_some, ht]
  obtain ⟨later, hselect⟩ := outcome_select_single (s := ⟨.empty, source⟩) honly
  refine ⟨later, ?_⟩
  rw [expandTemplate_bare hname]
  exact outcome_bind_of_ok hselect

/-- Each name of the chain takes one level, and the template at its end takes one more. -/
theorem outcome_leadsTo {t : Template} {name : String} {rest : List String}
    (h : LeadsTo g t name rest) (ht : t.isPlain = true) (limit levels : ℕ) (source : σ) :
    (outcome (expandTemplate g limit levels ⟨[.tag (.bare name)]⟩) ⟨.empty, source⟩).1 =
      if rest.length + 1 < levels then .ok t.plainText else .error (.recursionLimit limit) := by
  induction h generalizing levels source with
  | last hname hrule halternatives =>
    cases levels with
    | zero => rfl
    | succ levels =>
      obtain ⟨later, hend⟩ := outcome_bare_single hname hrule halternatives limit levels source
      rw [hend]
      cases levels with
      | zero => rfl
      | succ levels =>
        rw [expandTemplate_plain ht, if_pos (by simp)]
        rfl
  | @next name following rest rule hname hrule halternatives _ ih =>
    cases levels with
    | zero => rfl
    | succ levels =>
      obtain ⟨later, hend⟩ := outcome_bare_single hname hrule halternatives limit levels source
      rw [hend, ih levels later]
      simp only [List.length_cons, Nat.add_lt_add_iff_right]

/-- One push in the rule of another, for each key, around a template. -/
def nested (innermost : Template) : List String → Template
  | [] => innermost
  | key :: keys => ⟨[.action (.push key [nested innermost keys])]⟩

theorem expandTemplate_push (key : String) (r : Template) (limit levels : ℕ) :
    (expandTemplate g limit (levels + 1) ⟨[.action (.push key [r])]⟩ : Expansion σ String) = do
      let text ← expandTemplate g limit levels r
      push key [text]
      return "" := by
  simp [expandTemplate, expandSegments, expandSegment, runAction]

theorem outcome_nested {t : Template} (ht : t.isPlain = true) (keys : List String)
    (limit levels : ℕ) (s : ExpansionState σ) :
    (keys.length < levels → ∃ text, (outcome (expandTemplate g limit levels (nested t keys)) s).1 =
        .ok text) ∧
      (levels ≤ keys.length → (outcome (expandTemplate g limit levels (nested t keys)) s).1 =
        .error (.recursionLimit limit)) := by
  induction keys generalizing levels s with
  | nil =>
    cases levels with
    | zero => exact ⟨fun h => absurd h (Nat.lt_irrefl 0), fun _ => rfl⟩
    | succ levels =>
      rw [nested, expandTemplate_plain ht]
      exact ⟨fun _ => ⟨_, rfl⟩, fun h => absurd h (by simp)⟩
  | cons key keys ih =>
    cases levels with
    | zero => exact ⟨fun h => absurd h (Nat.not_lt_zero _), fun _ => rfl⟩
    | succ levels =>
      obtain ⟨hin, hout⟩ := ih levels s
      rw [nested, expandTemplate_push, outcome_bind]
      cases hend : outcome (expandTemplate g limit levels (nested t keys)) s with
      | mk result u =>
        rw [hend] at hin hout
        constructor
        · intro h
          obtain ⟨text, htext⟩ := hin (Nat.lt_of_succ_lt_succ h)
          obtain rfl : result = .ok text := htext
          exact ⟨"", rfl⟩
        · intro h
          obtain rfl : result = .error (.recursionLimit limit) := hout (Nat.le_of_succ_le_succ h)
          rfl

end Exact

end Expansion

namespace Grammar

open Expansion

def chain (text : String) : String → List String → List (String × List String)
  | last, [] => [(last, [text])]
  | name, next :: rest => (name, ["#" ++ next ++ "#"]) :: chain text next rest

example : chain "end" "r1" ["r2", "r3"] = [("r1", ["#r2#"]), ("r2", ["#r3#"]), ("r3", ["end"])] :=
  rfl

theorem insertRule_single {g : Grammar} {name text : String} {t : Template}
    (h : Template.parse text = .ok t) :
    g.insertRule name [text] = .ok { g with rules := g.rules.insert name ⟨name, [t]⟩ } := by
  simp only [insertRule, List.mapM_cons, List.mapM_nil, h]
  rfl

theorem rule?_inserted (g : Grammar) (rule : Rule) :
    Grammar.rule? { g with rules := g.rules.insert rule.name rule } rule.name = some rule :=
  Table.get?_insert_self _ _ _

theorem ofRules_chain {first text : String} {rest : List String} {t : Template}
    (hdistinct : (first :: rest).Nodup) (hnames : ∀ name ∈ first :: rest, IsName name)
    (htext : Template.parse text = .ok t) :
    ∃ g, ofRules (chain text first rest) = .ok g ∧ LeadsTo g t first rest := by
  -- rules are inserted from the front, and those inserted later leave a rule alone
  have hfold : ∀ start : Grammar, ∃ g,
      (chain text first rest).foldlM (fun g rule => g.insertRule rule.1 rule.2) start = .ok g ∧
        LeadsTo g t first rest ∧ ∀ name ∉ first :: rest, g.rule? name = start.rule? name := by
    induction rest generalizing first with
    | nil =>
      intro start
      have hfound := rule?_inserted start ⟨first, [t]⟩
      refine ⟨_, ?_, .last (hnames first (by simp)).1 hfound rfl, ?_⟩
      · rw [chain, List.foldlM_cons, insertRule_single htext]
        rfl
      · intro name hname
        exact Table.get?_insert_of_ne _ _ (by simpa using hname)
    | cons next rest ih =>
      intro start
      obtain ⟨hfirst, hothers⟩ := List.nodup_cons.mp hdistinct
      obtain ⟨g, hg, hleads, hkept⟩ := ih hothers (fun name hname => hnames name (by simp [hname]))
        { start with rules := start.rules.insert first ⟨first, [⟨[.tag (.bare next)]⟩]⟩ }
      have hread : start.insertRule first ["#" ++ next ++ "#"] = _ :=
        insertRule_single (Template.parse_bare (hnames next (by simp)))
      have hfound := rule?_inserted start ⟨first, [⟨[.tag (.bare next)]⟩]⟩
      rw [← hkept first hfirst] at hfound
      refine ⟨g, ?_, .next (hnames first (by simp)).1 hfound rfl hleads, ?_⟩
      · rw [chain, List.foldlM_cons, hread]
        exact hg
      · intro name hname
        rw [List.mem_cons, not_or] at hname
        rw [hkept name hname.2]
        exact Table.get?_insert_of_ne _ _ hname.1
  obtain ⟨g, hg, hleads, -⟩ := hfold empty
  exact ⟨g, hg, hleads⟩

section Limit

variable {σ : Type} [ChoiceSource σ]

theorem flattenWithin_of_higher {g : Grammar} {origin : String} {source : σ} {low high : ℕ}
    (h : low ≤ high)
    (hlow : (g.flattenWithin low origin source).1 ≠ .error (.expansion (.recursionLimit low))) :
    g.flattenWithin high origin source = g.flattenWithin low origin source := by
  unfold flattenWithin at hlow ⊢
  cases hparse : Template.parse origin with
  | error cause => rfl
  | ok t =>
    simp only [hparse] at hlow
    rcases run_of_higher (g := g) h t source with hcut | hsame
    · rw [hcut] at hlow
      exact absurd rfl hlow
    · simp only [hsame]

theorem expand_of_leadsTo {g : Grammar} {t : Template} {first : String} {rest : List String}
    (h : LeadsTo g t first rest) (ht : t.isPlain = true) (source : σ) :
    (g.expand first source).1 = .ok t.plainText ↔ (first :: rest).length ≤ maxDepth := by
  rw [expand, run_eq, outcome_leadsTo h ht]
  simp only [List.length_cons, Nat.add_lt_add_iff_right]
  split
  next hlt => simp [Nat.succ_le_of_lt hlt]
  next hge => simp; omega

theorem flatten_nested {g : Grammar} {origin : String} {t : Template} {keys : List String}
    (ht : t.isPlain = true) (horigin : Template.parse origin = .ok (nested t keys)) (source : σ) :
    (∀ levels, (g.flatten origin source).1 ≠ .error (.expansion (.recursionLimit levels))) ↔
      keys.length ≤ maxDepth := by
  obtain ⟨hin, hout⟩ := outcome_nested (g := g) ht keys maxDepth (maxDepth + 1) ⟨.empty, source⟩
  rw [flatten, flattenWithin, horigin]
  simp only [run_eq]
  by_cases hdeep : keys.length ≤ maxDepth
  · obtain ⟨text, htext⟩ := hin (Nat.lt_succ_of_le hdeep)
    rw [htext]
    exact iff_of_true (fun levels h => by cases h) hdeep
  · rw [hout (Nat.lt_of_not_le hdeep)]
    exact iff_of_false (fun h => h maxDepth rfl) hdeep

/-- Where a limit lets an expansion through, a higher one changes neither the text or the failure nor
the source that is left. A chain of rules gives the text at its end, and pushes inside each other
are made, exactly up to as many of them as the limit says. -/
theorem limit_only_cuts (source : σ) :
    (∀ (g : Grammar) (origin : String) (low high : ℕ), low ≤ high →
      (∀ levels, (g.flattenWithin low origin source).1 ≠
        .error (.expansion (.recursionLimit levels))) →
      g.flattenWithin high origin source = g.flattenWithin low origin source) ∧
    (∀ (first : String) (rest : List String) (text : String) (t : Template),
      (first :: rest).Nodup → (∀ name ∈ first :: rest, IsName name) →
      Template.parse text = .ok t → t.isPlain = true →
      ∃ g, ofRules (chain text first rest) = .ok g ∧
        ((g.expand first source).1 = .ok t.plainText ↔ (first :: rest).length ≤ 64)) ∧
    ∀ (g : Grammar) (keys : List String) (t : Template) (origin : String), t.isPlain = true →
      Template.parse origin = .ok (nested t keys) →
      ((∀ levels, (g.flatten origin source).1 ≠ .error (.expansion (.recursionLimit levels))) ↔
        keys.length ≤ 64) := by
  refine ⟨?_, ?_, ?_⟩
  · exact fun g origin low high h hlow => flattenWithin_of_higher h (hlow low)
  · intro first rest text t hdistinct hnames htext ht
    obtain ⟨g, hg, hleads⟩ := ofRules_chain hdistinct hnames htext
    exact ⟨g, hg, expand_of_leadsTo hleads ht source⟩
  · exact fun g keys t origin ht horigin => flatten_nested ht horigin source

end Limit

theorem nested_writable {t : Template} {keys : List String} (ht : t.IsWritable)
    (hkeys : ∀ key ∈ keys, IsName key) : (nested t keys).IsWritable := by
  induction keys with
  | nil => exact ht
  | cons key keys ih =>
    have hinner := ih fun other hother => hkeys other (by simp [hother])
    rw [nested]
    refine .level ?_ ?_ ?_ ?_
    · simp [normalForm]
    · simp
    · simpa [Template.actions, Segment.actions, normalForm] using hkeys key (by simp)
    · intro r hr
      obtain rfl : r = nested t keys := by
        simpa [Template.rules, Template.actions, Segment.actions, Action.rules] using hr
      exact hinner

/-- One push too many, next to two pushes and two rules that any limit from two on lets through. -/
theorem sixtyFive_pushes_are_cut :
    empty.flattenWithin 64 "[a:[b:c]]" (Script.of []) =
        empty.flattenWithin 2 "[a:[b:c]]" (Script.of []) ∧
      (∃ g, ofRules (chain "hi" "r1" ["r2"]) = .ok g ∧
        (g.expand "r1" (Script.of [0, 0])).1 = .ok "hi") ∧
      ¬ ∀ levels, (empty.flatten
          (String.ofList (nested (.literal "v") (List.replicate 65 "k")).render) (Script.of [])).1 ≠
        .error (.expansion (.recursionLimit levels)) := by
  obtain ⟨hcut, -, hpushes⟩ := limit_only_cuts (Script.of [])
  obtain ⟨-, hchain, -⟩ := limit_only_cuts (Script.of [0, 0])
  refine ⟨?_, ?_, ?_⟩
  · have horigin : Template.parse "[a:[b:c]]" =
        .ok (nested (.literal "c") ["a", "b"]) := by cbv
    refine hcut empty "[a:[b:c]]" 2 64 (by decide) fun levels => ?_
    rw [flattenWithin, horigin]
    intro h
    cases h
  · have htext : Template.parse "hi" = .ok (.literal "hi") := by cbv
    obtain ⟨g, hg, hexpand⟩ := hchain "r1" ["r2"] "hi" _ (by decide) (by decide) htext rfl
    exact ⟨g, hg, hexpand.mpr (by decide)⟩
  · have hliteral : (Template.literal "v").IsWritable :=
      Template.meets_literal (by simp [normalForm])
    have hwritten : (nested (.literal "v") (List.replicate 65 "k")).IsWritable :=
      nested_writable hliteral fun key hkey => List.eq_of_mem_replicate hkey ▸ by decide
    have horigin : Template.parse
        (String.ofList (nested (.literal "v") (List.replicate 65 "k")).render) =
        .ok (nested (.literal "v") (List.replicate 65 "k")) := by
      rw [Template.parse, String.toList_ofList]
      exact Template.parseChars_render hwritten
    rw [hpushes empty _ _ _ rfl horigin, List.length_replicate]
    decide

end Grammar

end Announcer
