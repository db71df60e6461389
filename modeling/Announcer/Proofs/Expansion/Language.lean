import Announcer.Proofs.Chance.Script
import Announcer.Proofs.Expansion.Contract

/-! # The language of a grammar

A grammar without actions derives texts the way any grammar does: a symbol derives what one of its
alternatives derives, and the texts of the tags go through their modifiers. Expansion produces
exactly these texts, as long as no path of a derivation has more symbols than the depth limit.
-/
namespace Announcer

open Chance (ChoiceSource Script)

def Grammar.modified? (g : Grammar) (calls : List ModifierCall) (text : String) : Option String :=
  calls.foldlM (fun text call => g.modifiers.transform? call.name text call.params) text

mutual

/-- A symbol, one alternative of its rule and the derivations for the tags of the alternative. -/
inductive Derivation (g : Grammar) : String → String → Type where
  | node {symbol text : String} {rule : Rule} {alternative : Template} :
      g.rule? symbol = some rule → alternative ∈ rule.alternatives →
      Forest g alternative.segments text → Derivation g symbol text

/-- The derivations for the tags of some segments, with the text of the segments. A tag without a
symbol has no derivation and starts from the empty text. -/
inductive Forest (g : Grammar) : List Segment → String → Type where
  | nil : Forest g [] ""
  | literal {rest : List Segment} {more : String} (text : String) :
      Forest g rest more → Forest g (.literal text :: rest) (text ++ more)
  | tag {tag : Tag} {rest : List Segment} {text changed more : String} :
      tag.symbol ≠ "" → Derivation g tag.symbol text →
      g.modified? tag.modifiers text = some changed →
      Forest g rest more → Forest g (.tag tag :: rest) (changed ++ more)
  | blank {tag : Tag} {rest : List Segment} {changed more : String} :
      tag.symbol = "" → g.modified? tag.modifiers "" = some changed →
      Forest g rest more → Forest g (.tag tag :: rest) (changed ++ more)

end

mutual

/-- The most symbols on one path. -/
def Derivation.height {g : Grammar} {symbol text : String} : Derivation g symbol text → Nat
  | .node _ _ forest => forest.height + 1

def Forest.height {g : Grammar} {segments : List Segment} {text : String} :
    Forest g segments text → Nat
  | .nil => 0
  | .literal _ rest => rest.height
  | .tag _ child _ rest => max child.height rest.height
  | .blank _ _ rest => rest.height

end

def Grammar.ActionFree (g : Grammar) : Prop :=
  ∀ name rule, g.rule? name = some rule → ∀ t ∈ rule.alternatives, t.actions = []

instance (g : Grammar) : Decidable g.ActionFree :=
  decidable_of_iff (∀ e ∈ g.rules.entries, ∀ t ∈ e.2.alternatives, t.actions = [])
    ⟨fun h name rule hrule => h (name, rule) (Table.get?_eq_some_iff.mp hrule),
      fun h e he => h e.1 e.2 (Table.get?_eq_some_iff.mpr he)⟩

namespace Expansion

variable {σ : Type} {g : Grammar}

theorem applyModifiers_cases (calls : List ModifierCall) (text : String) :
    (∃ changed, g.modified? calls text = some changed ∧
      (applyModifiers g calls text : Expansion σ String) = pure changed) ∨
    (g.modified? calls text = none ∧ ∃ call ∈ calls,
      (applyModifiers g calls text : Expansion σ String) = throw (.unknownModifier call.name)) := by
  induction calls generalizing text with
  | nil => exact .inl ⟨text, rfl, rfl⟩
  | cons call rest ih =>
    cases hnext : g.modifiers.transform? call.name text call.params with
    | none =>
      refine .inr ⟨?_, call, by simp, ?_⟩
      · simp [Grammar.modified?, List.foldlM_cons, hnext]
      · simp [applyModifiers, hnext]
    | some next =>
      have hmodified : g.modified? (call :: rest) text = g.modified? rest next := by
        simp [Grammar.modified?, List.foldlM_cons, hnext]
      have happly : (applyModifiers g (call :: rest) text : Expansion σ String) =
          applyModifiers g rest next := by
        simp [applyModifiers, hnext]
      rw [hmodified, happly]
      rcases ih next with h | ⟨hnone, other, hother, hthrow⟩
      · exact .inl h
      · exact .inr ⟨hnone, other, by simp [hother], hthrow⟩

section Sound

variable {deeper : Template → Expansion σ String} {levels : Nat}

/-- Nothing is pushed, and any failure may happen. -/
def Derives (m : Expansion σ α) (R : α → Prop) : Prop :=
  Keeps (fun pushes => pushes = .empty) m R fun _ => True

theorem derives_modifiers (calls : List ModifierCall) (text : String) :
    Derives (applyModifiers g calls text : Expansion σ String)
      fun changed => g.modified? calls text = some changed := by
  rcases applyModifiers_cases calls text with ⟨changed, hchanged, heq⟩ | ⟨-, _, -, heq⟩
  · rw [heq]
    exact keeps_pure hchanged
  · rw [heq]
    exact keeps_throw trivial

variable [ChoiceSource σ]

theorem derives_select (symbol : String) :
    Derives (select g symbol : Expansion σ Template)
      fun t => ∃ rule, g.rule? symbol = some rule ∧ t ∈ rule.alternatives := by
  refine keeps_select (fun _ _ _ => trivial) (fun _ _ _ => trivial) ?_
  rintro p ts rfl hts t ht
  rw [alternatives?_empty, Option.map_eq_some_iff] at hts
  obtain ⟨rule, hrule, rfl⟩ := hts
  exact ⟨rule, hrule, ht⟩

/-- Templates without actions derive what they are expanded to, with room for one more symbol
on every path. -/
def DeeperDerives (g : Grammar) (deeper : Template → Expansion σ String) (levels : Nat) : Prop :=
  ∀ t, t.actions = [] →
    Derives (deeper t) fun text => ∃ f : Forest g t.segments text, f.height < levels

-- A segment extends every forest of the segments after it, which are expanded later.
theorem derives_segment {s : Segment} (hg : g.ActionFree)
    (hdeeper : DeeperDerives g deeper levels) (hs : s.actions = []) :
    Derives (expandSegment deeper g s) fun text => ∀ rest more (f : Forest g rest more),
      f.height ≤ levels → ∃ f' : Forest g (s :: rest) (text ++ more), f'.height ≤ levels := by
  cases s with
  | literal text => exact keeps_pure fun rest more f hf => ⟨.literal text f, hf⟩
  | action a => simp [Segment.actions] at hs
  | tag tag =>
    change Derives (expandTag deeper g tag) _
    rw [expandTag_of_no_actions hs]
    by_cases hblank : tag.symbol = ""
    · rw [hblank, expandSymbol_blank, pure_bind]
      apply Keeps.mono (derives_modifiers tag.modifiers "")
      intro changed hchanged rest more f hf
      exact ⟨.blank hblank hchanged f, hf⟩
    · rw [expandSymbol_named hblank, bind_assoc]
      apply Keeps.bind (derives_select tag.symbol)
      rintro alternative ⟨rule, hrule, hmem⟩
      apply Keeps.bind (hdeeper alternative (hg _ rule hrule _ hmem))
      rintro text ⟨child, hchild⟩
      apply Keeps.mono (derives_modifiers tag.modifiers text)
      intro changed hchanged rest more f hf
      refine ⟨.tag hblank (.node hrule hmem child) hchanged f, ?_⟩
      simp only [Forest.height, Derivation.height]
      omega

theorem derives_segments {segments : List Segment} (hg : g.ActionFree)
    (hdeeper : DeeperDerives g deeper levels) (hs : ∀ s ∈ segments, s.actions = []) :
    Derives (expandSegments deeper g segments) fun text =>
      ∃ f : Forest g segments text, f.height ≤ levels := by
  induction segments with
  | nil => exact keeps_pure ⟨.nil, Nat.zero_le _⟩
  | cons s rest ih =>
    apply Keeps.bind (derives_segment hg hdeeper (hs s (by simp)))
    intro text htext
    apply Keeps.bind (ih fun other ho => hs other (by simp [ho]))
    rintro more ⟨f, hf⟩
    exact keeps_pure (htext rest more f hf)

theorem segment_actions_eq_nil {t : Template} (h : t.actions = []) {s : Segment}
    (hs : s ∈ t.segments) : s.actions = [] :=
  List.flatMap_eq_nil_iff.mp h s hs

theorem derives_template (hg : g.ActionFree) (limit levels : Nat) :
    DeeperDerives g (expandTemplate g limit levels : Template → Expansion σ String) levels := by
  induction levels with
  | zero =>
    intro t _
    exact keeps_throw trivial
  | succ levels ih =>
    intro t ht
    refine (derives_segments hg ih fun s hs => segment_actions_eq_nil ht hs).mono ?_
    rintro text ⟨f, hf⟩
    exact ⟨f, Nat.lt_succ_of_le hf⟩

/-- Whatever the choices are taken from, the text has a derivation. -/
theorem derived_of_run {limit : Nat} {t : Template} {source : σ} {text : String}
    (hg : g.ActionFree) (ht : t.actions = []) (h : (run g limit t source).1 = .ok text) :
    ∃ f : Forest g t.segments text, f.height ≤ limit := by
  rw [run_eq] at h
  obtain ⟨⟨f, hf⟩, -⟩ :=
    (derives_template hg limit (limit + 1) t ht).of_ok (s := ⟨.empty, source⟩) rfl (Prod.ext h rfl)
  exact ⟨f, Nat.le_of_lt_succ hf⟩

end Sound

section Complete

/-- Some choices give the text, whatever is left for the choices that follow. -/
def Chosen (m : Expansion Script String) (text : String) : Prop :=
  ∃ choices, ∀ more, outcome m ⟨.empty, Script.of (choices ++ more)⟩ =
    (.ok text, ⟨.empty, Script.of more⟩)

theorem chosen_pure (text : String) : Chosen (pure text) text := ⟨[], fun _ => rfl⟩

theorem Chosen.bind {m : Expansion Script String} {f : String → Expansion Script String}
    {text changed : String} (hm : Chosen m text) (hf : Chosen (f text) changed) :
    Chosen (m >>= f) changed := by
  obtain ⟨first, hfirst⟩ := hm
  obtain ⟨second, hsecond⟩ := hf
  refine ⟨first ++ second, fun more => ?_⟩
  rw [List.append_assoc, outcome_bind_of_ok (hfirst _)]
  exact hsecond more

theorem chosen_modifiers {calls : List ModifierCall} {text changed : String}
    (h : g.modified? calls text = some changed) : Chosen (applyModifiers g calls text) changed := by
  rcases applyModifiers_cases calls text with ⟨other, hother, heq⟩ | ⟨hnone, -⟩
  · obtain rfl : changed = other := Option.some_inj.mp (h.symm.trans hother)
    rw [heq]
    exact chosen_pure changed
  · rw [hnone] at h
    cases h

variable {deeper : Template → Expansion Script String} {levels : Nat}

theorem chosen_symbol {symbol text : String} {rule : Rule} {alternative : Template}
    (hsymbol : symbol ≠ "") (hrule : g.rule? symbol = some rule)
    (hmem : alternative ∈ rule.alternatives) (h : Chosen (deeper alternative) text) :
    Chosen (expandSymbol deeper g symbol) text := by
  obtain ⟨choices, hchoices⟩ := h
  obtain ⟨choice, hlt, hget⟩ := List.getElem_of_mem hmem
  have hpos : 0 < rule.alternatives.length := by omega
  refine ⟨choice :: choices, fun more => ?_⟩
  rw [expandSymbol_named hsymbol, outcome_bind, outcome_select]
  simp only [alternatives?_empty, hrule, Option.map_some, hpos, dite_true, List.cons_append,
    Script.choose_of hpos hlt]
  rw [List.get_eq_getElem, hget]
  exact hchoices more

def DeeperChooses (g : Grammar) (deeper : Template → Expansion Script String) (levels : Nat) :
    Prop :=
  ∀ t, t.actions = [] → ∀ text (f : Forest g t.segments text), f.height < levels →
    Chosen (deeper t) text

theorem chosen_derivation {symbol text : String} (hg : g.ActionFree)
    (hdeeper : DeeperChooses g deeper levels) (hsymbol : symbol ≠ "")
    (d : Derivation g symbol text) (hd : d.height ≤ levels) :
    Chosen (expandSymbol deeper g symbol) text := by
  cases d with
  | node hrule hmem f =>
    exact chosen_symbol hsymbol hrule hmem (hdeeper _ (hg _ _ hrule _ hmem) text f hd)

theorem chosen_segments {segments : List Segment} {text : String} (hg : g.ActionFree)
    (hdeeper : DeeperChooses g deeper levels) (hs : ∀ s ∈ segments, s.actions = [])
    (f : Forest g segments text) (hf : f.height ≤ levels) :
    Chosen (expandSegments deeper g segments) text := by
  induction segments generalizing text with
  | nil =>
    cases f with
    | nil => exact chosen_pure ""
  | cons s rest ih =>
    have hrest : ∀ {more} (f : Forest g rest more), f.height ≤ levels →
        Chosen (expandSegments deeper g rest) more :=
      fun f hf => ih (fun other ho => hs other (by simp [ho])) f hf
    have hself := hs s (by simp)
    cases f with
    | literal text f =>
      exact (chosen_pure text).bind ((hrest f hf).bind (chosen_pure _))
    | @tag tag _ text changed more hsymbol d hmodified f =>
      have hheight : max d.height f.height ≤ levels := hf
      have hd := chosen_derivation hg hdeeper hsymbol d (by omega)
      have htag : Chosen (expandTag deeper g tag) changed := by
        rw [expandTag_of_no_actions hself]
        exact hd.bind (chosen_modifiers hmodified)
      exact htag.bind ((hrest f (by omega)).bind (chosen_pure _))
    | @blank tag _ changed more hsymbol hmodified f =>
      have htag : Chosen (expandTag deeper g tag) changed := by
        rw [expandTag_of_no_actions hself, hsymbol, expandSymbol_blank]
        exact (chosen_pure "").bind (chosen_modifiers hmodified)
      exact htag.bind ((hrest f hf).bind (chosen_pure _))

theorem chosen_template (hg : g.ActionFree) (limit levels : Nat) :
    DeeperChooses g (expandTemplate g limit levels) levels := by
  induction levels with
  | zero =>
    intro t _ text f hf
    exact absurd hf (Nat.not_lt_zero _)
  | succ levels ih =>
    intro t ht text f hf
    exact chosen_segments hg ih (fun s hs => segment_actions_eq_nil ht hs) f (Nat.le_of_lt_succ hf)

end Complete

theorem run_iff_forest {limit : Nat} {t : Template} {text : String} (hg : g.ActionFree)
    (ht : t.actions = []) :
    (∃ choices, run g limit t (Script.of choices) = (.ok text, Script.of [])) ↔
      ∃ f : Forest g t.segments text, f.height ≤ limit := by
  constructor
  · rintro ⟨choices, h⟩
    have hok : (run g limit t (Script.of choices)).1 = .ok text := by rw [h]
    exact derived_of_run hg ht hok
  · rintro ⟨f, hf⟩
    obtain ⟨choices, hchoices⟩ :=
      chosen_template hg limit (limit + 1) t ht text f (Nat.lt_succ_of_le hf)
    refine ⟨choices, ?_⟩
    have hend := hchoices []
    rw [List.append_nil] at hend
    rw [run_eq, hend]

end Expansion

theorem forest_bare_iff {g : Grammar} {symbol text : String} {n : Nat} :
    (∃ f : Forest g [.tag (.bare symbol)] text, f.height ≤ n) ↔
      if symbol = "" then text = "" else ∃ d : Derivation g symbol text, d.height ≤ n := by
  by_cases hsymbol : symbol = ""
  · subst hsymbol
    rw [if_pos rfl]
    constructor
    · rintro ⟨f, -⟩
      cases f with
      | tag hne => exact absurd rfl hne
      | blank _ hmodified rest =>
        cases rest
        obtain rfl := Option.some_inj.mp hmodified
        rfl
    · rintro rfl
      have hforest : ∃ f : Forest g [.tag (.bare "")] ("" ++ ""), f.height ≤ n :=
        ⟨.blank rfl rfl .nil, Nat.zero_le n⟩
      rwa [String.append_empty] at hforest
  · rw [if_neg hsymbol]
    constructor
    · rintro ⟨f, hf⟩
      cases f with
      | blank hblank => exact absurd hblank hsymbol
      | tag _ d hmodified rest =>
        cases rest
        obtain rfl := Option.some_inj.mp hmodified
        rw [String.append_empty]
        exact ⟨d, Nat.le_trans (Nat.le_max_left _ _) hf⟩
    · rintro ⟨d, hd⟩
      have hforest : ∃ f : Forest g [.tag (.bare symbol)] (text ++ ""), f.height ≤ n :=
        ⟨.tag hsymbol d rfl .nil, Nat.max_le.mpr ⟨hd, Nat.zero_le n⟩⟩
      rwa [String.append_empty] at hforest

namespace Grammar

theorem expand_blank (g : Grammar) {σ : Type} [ChoiceSource σ] (source : σ) :
    g.expand "" source = (.ok "", source) := rfl

/-- Expansion produces the texts with a derivation within the depth limit, and no others. The empty
symbol stands for no rule, also when there is one without a name, and makes no choice. -/
theorem expand_iff_derivation {g : Grammar} (hg : g.ActionFree) (symbol text : String) :
    ((∃ choices, g.expand symbol (Script.of choices) = (.ok text, Script.of [])) ↔
      if symbol = "" then text = "" else ∃ d : Derivation g symbol text, d.height ≤ maxDepth) ∧
    ∀ {σ : Type} [ChoiceSource σ] (source : σ), g.expand "" source = (.ok "", source) :=
  ⟨(Expansion.run_iff_forest hg rfl).trans forest_bare_iff, expand_blank g⟩

def laughter : Grammar where
  rules := .ofList [
    ("laugh", ⟨"laugh", [.literal "ha", ⟨[.literal "ha ", .tag (.bare "laugh")]⟩]⟩),
    ("origin", ⟨"origin", [⟨[.tag ⟨[], "laugh", [⟨"capitalize", []⟩]⟩, .literal "!"]⟩]⟩)]
  modifiers := English.modifiers

/-- One symbol inside another, and a modifier on the way out. -/
theorem laughter_laughs_twice : laughter.ActionFree ∧
    ∃ choices, laughter.expand "origin" (Script.of choices) = (.ok "Ha ha!", Script.of []) := by
  have hfree : laughter.ActionFree := by decide
  let once : Derivation laughter "laugh" ("ha" ++ "") :=
    .node rfl List.mem_cons_self (.literal "ha" .nil)
  let twice : Derivation laughter "laugh" ("ha " ++ ("ha" ++ "" ++ "")) :=
    .node rfl (List.mem_cons_of_mem _ List.mem_cons_self)
      (.literal "ha " (.tag (by decide) once rfl .nil))
  let origin : Derivation laughter "origin" ("Ha ha" ++ ("!" ++ "")) :=
    .node rfl List.mem_cons_self (.tag (by decide) twice (by decide) (.literal "!" .nil))
  exact ⟨hfree, (expand_iff_derivation hfree "origin" "Ha ha!").1.mpr ⟨origin, by decide⟩⟩

/-- A rule with an empty name has derivations, but the empty symbol is never expanded by it. -/
def nameless : Grammar where
  rules := .ofList [("", ⟨"", [.literal "x"]⟩)]
  modifiers := English.modifiers

theorem nameless_rule_never_chosen : nameless.ActionFree ∧
    (∃ d : Derivation nameless "" "x", d.height ≤ maxDepth) ∧
    ¬ ∃ choices, nameless.expand "" (Script.of choices) = (.ok "x", Script.of []) := by
  refine ⟨by decide, ?_, ?_⟩
  · let leaf : Derivation nameless "" ("x" ++ "") :=
      .node rfl List.mem_cons_self (.literal "x" .nil)
    exact ⟨leaf, by decide⟩
  · rintro ⟨choices, h⟩
    rw [expand_blank] at h
    simp at h

end Grammar

end Announcer
