import Announcer.Proofs.Expansion.Steps
import Announcer.Proofs.Grammar.LintSoundness

/-! # What a report promises

A reference or a modifier that is reported makes every run fail that takes the alternative, wherever
in it the tag stands. A rule that is reported to have no way out gives a text only where a push
stands in for it.
-/
namespace Announcer.Grammar

open Chance (ChoiceSource Script Generator)
open Recorded (Path Moves moves_expandTemplate tag_of_text)
open Expansion (outcome alternatives? alternatives?_eq_some)

theorem each_pushesOnly (g : Grammar) : g.Each (Template.PushesOnly g.PushesKey) :=
  fun name rule hrule t ht _ rules hin => ⟨name, rule, hrule, t, ht, rules, hin⟩

namespace Lint

structure Reported (g : Grammar) (name : String) (t : Template) : Prop where
  alternative : ∃ rule, g.rule? name = some rule ∧ t ∈ rule.alternatives
  problem : ∃ tag ∈ t.tags, .missingRule name tag.symbol ∈ g.lint.problems ∨
    ∃ call ∈ tag.modifiers, .unknownModifier name call.name ∈ g.lint.problems

theorem problem_cases {g : Grammar} {p : Problem} (h : p ∈ g.lint.problems) :
    ∃ name rule, g.rule? name = some rule ∧
      (p = .noAlternatives name ∨ (∃ tag, p ∈ tagProblems g (pushedKeys g) name tag) ∨
        (p = .noWayOut name ∧ ∀ t ∈ rule.alternatives, refersTo name t = true)) := by
  obtain ⟨⟨name, rule⟩, he, hp⟩ := List.mem_flatMap.mp h
  refine ⟨name, rule, Table.get?_eq_some_iff.mpr he, ?_⟩
  unfold ruleProblems at hp
  split at hp
  next => exact .inl (List.mem_singleton.mp hp)
  next =>
    rcases List.mem_append.mp hp with htags | hself
    · obtain ⟨tag, -, htag⟩ := List.mem_flatMap.mp htags
      exact .inr (.inl ⟨tag, htag⟩)
    · split at hself
      next hall => exact .inr (.inr ⟨List.mem_singleton.mp hself, by simpa using hall⟩)
      next => simp at hself

theorem tagProblem_cases {g : Grammar} {name : String} {tag : Tag} {p : Problem}
    (h : p ∈ tagProblems g (pushedKeys g) name tag) :
    (p = .missingRule name tag.symbol ∧ tag.symbol ≠ "" ∧
        g.rules.contains tag.symbol = false ∧ ¬ g.PushesKey tag.symbol) ∨
      ∃ modifier, g.modifiers.contains modifier = false ∧ p = .unknownModifier name modifier := by
  rcases List.mem_append.mp h with hmissing | hunknown
  · split at hmissing
    next hcond =>
      obtain ⟨hsymbol, hrule, hpush⟩ := hcond
      have hkey : ¬ g.PushesKey tag.symbol := fun hkey => hpush (mem_pushedKeys_iff.mpr hkey)
      exact .inl ⟨List.mem_singleton.mp hmissing, hsymbol, hrule, hkey⟩
    next => simp at hmissing
  · obtain ⟨call, hcall, rfl⟩ := List.mem_map.mp hunknown
    exact .inr ⟨call.name, by simpa using (List.mem_filter.mp hcall).2, rfl⟩

theorem missingRule_reported {g : Grammar} {name symbol : String}
    (h : .missingRule name symbol ∈ g.lint.problems) :
    symbol ≠ "" ∧ g.rules.contains symbol = false ∧ ¬ g.PushesKey symbol := by
  obtain ⟨_, _, -, heq | ⟨tag, htag⟩ | ⟨heq, -⟩⟩ := problem_cases h
  · cases heq
  · rcases tagProblem_cases htag with ⟨heq, hunknown⟩ | ⟨_, -, heq⟩
    · cases heq
      exact hunknown
    · cases heq
  · cases heq

theorem unknownModifier_reported {g : Grammar} {name modifier : String}
    (h : .unknownModifier name modifier ∈ g.lint.problems) :
    g.modifiers.contains modifier = false := by
  obtain ⟨_, _, -, heq | ⟨tag, htag⟩ | ⟨heq, -⟩⟩ := problem_cases h
  · cases heq
  · rcases tagProblem_cases htag with ⟨heq, -⟩ | ⟨_, hunknown, heq⟩
    · cases heq
    · cases heq
      exact hunknown
  · cases heq

theorem noWayOut_reported {g : Grammar} {name : String} (h : .noWayOut name ∈ g.lint.problems) :
    ∃ rule, g.rule? name = some rule ∧
      ∀ t ∈ rule.alternatives, ∃ tag : Tag, tag.OccursIn t ∧ tag.symbol = name := by
  obtain ⟨_, rule, hrule, heq | ⟨tag, htag⟩ | ⟨heq, hall⟩⟩ := problem_cases h
  · cases heq
  · rcases tagProblem_cases htag with ⟨heq, -⟩ | ⟨_, -, heq⟩
    · cases heq
    · cases heq
  · cases heq
    refine ⟨rule, hrule, fun t ht => ?_⟩
    obtain ⟨tag, htag, hsymbol⟩ := List.any_eq_true.mp (hall t ht)
    exact ⟨tag, Template.mem_tags_iff.mp htag, by simpa using hsymbol⟩

end Lint

section Runs

variable {σ : Type} [ChoiceSource σ] {g : Grammar} {name : String}

/-- An alternative that is reported gives no text while only known keys are in force. -/
theorem no_text_of_reported {t : Template} (h : Lint.Reported g name t) {limit levels : Nat}
    {s u : ExpansionState (Recorded σ)} {text : String}
    (hs : ∀ key, s.pushes.get? key ≠ none → g.PushesKey key) :
    outcome (Recorded.expandTemplate g limit levels t) s ≠ (.ok text, u) := by
  intro hok
  obtain ⟨rule, hrule, hmem⟩ := h.alternative
  obtain ⟨tag, htag, hproblem⟩ := h.problem
  have hpushes := g.each_pushesOnly name rule hrule t hmem
  obtain ⟨hregistered, hfound⟩ :=
    tag_of_text g.each_pushesOnly hpushes (Template.mem_tags_iff.mp htag) hok
  rcases hproblem with hmissing | ⟨call, hcall, hunknown⟩
  · obtain ⟨hnamed, hnorule, hnopush⟩ := Lint.missingRule_reported hmissing
    obtain ⟨_, -, v, _, _, hpath, hsome, -⟩ := hfound hnamed
    have hkeys := hpath.preserves (fun _ _ hstep => hstep.keys) hs
    rcases alternatives?_eq_some hsome with ⟨frame, htop, -⟩ | ⟨other, hother, -⟩
    · refine hnopush (hkeys tag.symbol fun hnone => ?_)
      simp [Pushes.top?, hnone] at htop
    · simp only [Table.contains, Grammar.rule?] at hnorule hother
      simp [hother] at hnorule
  · have hknown := hregistered call hcall
    rw [Lint.unknownModifier_reported hunknown] at hknown
    cases hknown

/-- A run that takes a reported alternative fails, whatever it began with and wherever it takes it. -/
theorem reported_never_expanded {t : Template} (h : Lint.Reported g name t)
    {symbol other : String} (source : σ) (htaken : .choose other t ∈ g.record symbol source) :
    ∃ e, (g.expand symbol source).1 = .error e := by
  rw [Grammar.expand_eq]
  cases hend : outcome (Recorded.expandTemplate g maxDepth (maxDepth + 1) ⟨[.tag (.bare symbol)]⟩)
      (.start source) with
  | mk result u =>
    cases result with
    | error e => exact ⟨e, rfl⟩
    | ok text =>
      exfalso
      have hbare : Template.PushesOnly g.PushesKey ⟨[.tag (.bare symbol)]⟩ :=
        Template.pushesOnly_of_no_actions rfl
      have hmoves := moves_expandTemplate (σ := σ) g.each_pushesOnly maxDepth (maxDepth + 1) _ hbare
      unfold Grammar.record at htaken
      rw [hend] at htaken
      rcases hmoves.completes _ _ _ hend other t htaken with hold | ⟨levels, inner, v, w, hpath, hw⟩
      · simp [ExpansionState.start, ExpansionState.events] at hold
      · have hkeys := hpath.preserves (fun _ _ hstep => hstep.keys) fun key hkey =>
          absurd rfl hkey
        exact no_text_of_reported h hkeys hw

def haunted : Grammar where
  rules := .ofList [
    ("origin", ⟨"origin", [
      .literal "hi",
      ⟨[.tag ⟨[.push "host" [⟨[.tag (.bare "nobody")]⟩]], "host", []⟩]⟩]⟩)]
  modifiers := English.modifiers

theorem haunted_alternative_fails :
    (∃ e, (haunted.expand "origin" (Script.of [1])).1 = .error e) ∧
    (haunted.expand "origin" (Script.of [0])).1 = .ok "hi" := by
  have hreported : Lint.Reported haunted "origin"
      ⟨[.tag ⟨[.push "host" [⟨[.tag (.bare "nobody")]⟩]], "host", []⟩]⟩ := by
    refine ⟨⟨_, rfl, by simp⟩, .bare "nobody", List.mem_cons_self, .inl ?_⟩
    decide
  have htaken : Event.choose "origin"
      ⟨[.tag ⟨[.push "host" [⟨[.tag (.bare "nobody")]⟩]], "host", []⟩]⟩ ∈
        haunted.record "origin" (Script.of [1]) := List.mem_cons_self
  exact ⟨reported_never_expanded hreported _ htaken, rfl⟩

/-- The name has been pushed, or only its rule stands for it. -/
def PushedOrBare (name : String) (s : ExpansionState (Recorded σ)) : Prop :=
  (∃ frame, .push name frame ∈ s.events) ∨ s.pushes.get? name = none

omit [ChoiceSource σ] in
theorem pushedOrBare_step {K : String → Prop} {s t : ExpansionState (Recorded σ)}
    (h : Recorded.Step g K s t) (hs : PushedOrBare name s) : PushedOrBare name t := by
  rcases hs with ⟨frame, hpushed⟩ | hnone
  · exact .inl ⟨frame, h.events_suffix.subset hpushed⟩
  · cases h with
    | @push key frame hkey =>
      by_cases heq : name = key
      · exact .inl ⟨frame, by simp [ExpansionState.events, heq]⟩
      · exact .inr (by rw [Pushes.get?_push, if_neg heq, hnone])
    | @pop key pushes hpop =>
      obtain ⟨frames, hframes, hget⟩ := Pushes.get?_of_pop hpop
      have hne : name ≠ key := by
        rintro rfl
        rw [hnone] at hframes
        cases hframes
      exact .inr (by rw [hget, if_neg hne, hnone])
    | choose => exact .inr hnone

/-- A template that refers to a rule without a way out gives a text only after a push of the name:
until then each reference leads to another one, with fewer levels left. -/
theorem pushed_of_text {K : String → Prop} (hg : g.Each (Template.PushesOnly K))
    (hreported : .noWayOut name ∈ g.lint.problems) (hname : name ≠ "") {limit levels : Nat}
    {t : Template} (ht : t.PushesOnly K) {tag : Tag} (htag : tag.OccursIn t)
    (hsymbol : tag.symbol = name) {s u : ExpansionState (Recorded σ)} {text : String}
    (hs : PushedOrBare name s)
    (h : outcome (Recorded.expandTemplate g limit levels t) s = (.ok text, u)) :
    ∃ frame, .push name frame ∈ u.events := by
  obtain ⟨rule, hrule, hrefers⟩ := Lint.noWayOut_reported hreported
  induction levels using Nat.strongRecOn generalizing t tag s u text with
  | ind levels ih =>
    obtain ⟨-, hfound⟩ := tag_of_text hg ht htag h
    obtain ⟨fewer, hlt, v, ts, alternative, hsv, hsome, hmem, w, inner, x, hvw, hinner, hxu⟩ :=
      hfound (hsymbol ▸ hname)
    rw [hsymbol] at hsome
    have halternative := Recorded.pushesOnly_of_alternatives? hg hsome hmem
    have hwx := (moves_expandTemplate (σ := σ) hg limit fewer _ halternative).of_ok hinner
    have hlater : ∀ {a}, Path g K a u → (∃ frame, .push name frame ∈ a.events) →
        ∃ frame, .push name frame ∈ u.events :=
      fun hpath ⟨frame, hframe⟩ => ⟨frame, hpath.events_suffix.subset hframe⟩
    rcases hsv.preserves (fun _ _ => pushedOrBare_step) hs with hpushed | hnone
    · exact hlater (hvw.trans (hwx.trans hxu)) hpushed
    · -- without a push of the name it is the rule that was asked, and the rule refers to itself
      rcases alternatives?_eq_some hsome with ⟨frame, htop, -⟩ | ⟨own, hown, rfl⟩
      · simp [Pushes.top?, hnone] at htop
      · obtain rfl : own = rule := Option.some_inj.mp (hown.symm.trans hrule)
        obtain ⟨again, hagain, hback⟩ := hrefers alternative hmem
        have hw := hvw.preserves (fun _ _ => pushedOrBare_step) (.inr hnone)
        exact hlater hxu (ih fewer hlt halternative hagain hback hw hinner)

/-- A rule that is reported to have no way out gives a text only in a run that pushes its name, and
so never when no push of the grammar is for it. -/
theorem noWayOut_sound (hreported : .noWayOut name ∈ g.lint.problems) (hname : name ≠ "")
    (source : σ) :
    (∀ text, (g.expand name source).1 = .ok text →
      ∃ frame, .push name frame ∈ g.record name source) ∧
    (¬ g.PushesKey name → ∃ e, (g.expand name source).1 = .error e) := by
  have hbare : Template.PushesOnly g.PushesKey ⟨[.tag (.bare name)]⟩ :=
    Template.pushesOnly_of_no_actions rfl
  have hpushed : ∀ text, (g.expand name source).1 = .ok text →
      ∃ frame, .push name frame ∈ g.record name source := by
    intro text htext
    rw [Grammar.expand_eq] at htext
    have htag : (Tag.bare name).OccursIn ⟨[.tag (.bare name)]⟩ := .here (by simp)
    exact pushed_of_text g.each_pushesOnly hreported hname hbare htag rfl (.inr rfl)
      (Prod.ext htext rfl)
  refine ⟨hpushed, fun hnopush => ?_⟩
  cases hend : (g.expand name source).1 with
  | error e => exact ⟨e, rfl⟩
  | ok text =>
    obtain ⟨frame, hframe⟩ := hpushed text hend
    have hpath := (moves_expandTemplate (σ := σ) g.each_pushesOnly maxDepth (maxDepth + 1) _
      hbare).path (.start source)
    have hkeys := hpath.preserves (fun _ _ hstep => hstep.pushed) fun key frame hmem => by
      simp [ExpansionState.start, ExpansionState.events] at hmem
    exact absurd (hkeys name frame hframe) hnopush

end Runs

def echo : Grammar where
  rules := .ofList [("call", ⟨"call", [⟨[.literal "hey, ", .tag (.bare "call")]⟩]⟩)]
  modifiers := English.modifiers

theorem echo_never_ends : .noWayOut "call" ∈ echo.lint.problems ∧
    ∃ e, (echo.expand "call" (Generator.ofSeed 7)).1 = .error e := by
  have hreported : .noWayOut "call" ∈ echo.lint.problems := by decide
  have hnopush : ¬ echo.PushesKey "call" := by
    rw [← Lint.mem_pushedKeys_iff]
    decide
  exact ⟨hreported, (noWayOut_sound hreported (by decide) _).2 hnopush⟩

/-- The push comes before the reference, so the rule is not asked again. -/
def shadowed : Grammar where
  rules := .ofList [("x", ⟨"x", [⟨[.tag ⟨[.push "x" [.literal "a"]], "x", []⟩]⟩]⟩)]
  modifiers := English.modifiers

section Shadowed

open Expansion

variable {σ : Type} [ChoiceSource σ]

theorem shadowed_tag (source : σ) : ∃ later,
    outcome (expandTag (expandTemplate shadowed 64 63) shadowed
      ⟨[.push "x" [.literal "a"]], "x", []⟩) ⟨.empty, source⟩ = (.ok "a", ⟨.empty, later⟩) := by
  let pushed : ExpansionState σ := ⟨Pushes.push .empty "x" ["a"], source⟩
  obtain ⟨later, hselect⟩ : ∃ later, outcome (select shadowed "x") pushed =
      (.ok (.literal "a"), { pushed with source := later }) := outcome_select_single rfl
  have hpush : outcome (runActions (expandTemplate shadowed 64 63) [.push "x" [.literal "a"]] [])
      ⟨.empty, source⟩ = (.ok ["x"], pushed) := rfl
  have hsymbol : outcome (expandSymbol (expandTemplate shadowed 64 63) shadowed "x") pushed =
      (.ok "a", { pushed with source := later }) := by
    rw [expandSymbol_named (by decide), outcome_bind_of_ok hselect]
    rfl
  refine ⟨later, ?_⟩
  rw [expandTag, outcome_bind_of_ok hpush, outcome_bind_of_ok hsymbol]
  rfl

theorem shadowed_gives (source : σ) : (shadowed.expand "x" source).1 = .ok "a" := by
  obtain ⟨first, hselect⟩ : ∃ first, outcome (select shadowed "x") ⟨.empty, source⟩ =
      (.ok ⟨[.tag ⟨[.push "x" [.literal "a"]], "x", []⟩]⟩, ⟨.empty, first⟩) :=
    outcome_select_single rfl
  obtain ⟨later, htag⟩ := shadowed_tag first
  have hsymbol : outcome (expandSymbol (expandTemplate shadowed 64 64) shadowed "x")
      ⟨.empty, source⟩ = (.ok "a", ⟨.empty, later⟩) := by
    rw [expandSymbol_named (by decide), outcome_bind_of_ok hselect]
    exact outcome_bind_of_ok htag
  have houter : outcome (expandTag (expandTemplate shadowed 64 64) shadowed (.bare "x"))
      ⟨.empty, source⟩ = (.ok "a", ⟨.empty, later⟩) := outcome_bind_of_ok hsymbol
  rw [expand, run_eq]
  exact congrArg Prod.fst (outcome_bind_of_ok houter)

end Shadowed

theorem shadowed_reported_and_ends :
    ofRules [("x", ["#[x:a]x#"])] = .ok shadowed ∧
    .noWayOut "x" ∈ shadowed.lint.problems ∧
    (shadowed.expand "x" (Generator.ofSeed 1)).1 = .ok "a" := by
  have hparse : Template.parse "#[x:a]x#" =
      .ok ⟨[.tag ⟨[.push "x" [.literal "a"]], "x", []⟩]⟩ := by cbv
  have hload : ofRules [("x", ["#[x:a]x#"])] = .ok shadowed := by
    simp only [ofRules, insertRule, List.foldlM_cons, List.mapM_cons, hparse]
    rfl
  exact ⟨hload, by decide, shadowed_gives _⟩

end Announcer.Grammar
