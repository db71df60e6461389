import Announcer.Proofs.Grammar.Edits
import Announcer.Proofs.Loading.Json
import Announcer.Proofs.Loading.Ron
import Announcer.Proofs.Template.RoundTrip
import Mathlib

/-! # Agreement of the loaders

Rules with names of their own make the same grammar in any order, for each name has the rule that
was read for it and a mistake in one of them is met in any order. Both formats read the rules that
are in writing, so it does not matter either in what order the map of a file is gone through.
-/
namespace Announcer

namespace Table

variable {β : Type} {pairs others : List (String × β)}

theorem get?_ofList_eq_some_iff (h : (pairs.map Prod.fst).Nodup) {name : String} {value : β} :
    (ofList pairs).get? name = some value ↔ (name, value) ∈ pairs := by
  refine ⟨mem_of_get?_ofList, fun hmem => ?_⟩
  obtain ⟨before, after, hpairs⟩ := List.append_of_mem (List.mem_reverse.mpr hmem)
  rw [get?_ofList, List.lookup_eq_some_iff]
  refine ⟨before, after, hpairs, fun e he => ?_⟩
  have hdistinct : (pairs.reverse.map Prod.fst).Nodup := by
    rw [List.map_reverse]
    exact List.nodup_reverse.mpr h
  rw [hpairs, List.map_append, List.map_cons, List.nodup_middle, List.nodup_cons] at hdistinct
  have hkey : e.1 ∈ before.map Prod.fst := List.mem_map_of_mem he
  have hne : name ≠ e.1 := by
    intro heq
    rw [← heq] at hkey
    exact hdistinct.1 (List.mem_append_left _ hkey)
  simpa using hne

theorem ofList_perm (h : (pairs.map Prod.fst).Nodup) (horder : others.Perm pairs) :
    ofList others = ofList pairs := by
  have hothers : (others.map Prod.fst).Nodup := (horder.map Prod.fst).nodup_iff.mpr h
  refine ext_get? fun name => Option.ext fun value => ?_
  rw [get?_ofList_eq_some_iff h, get?_ofList_eq_some_iff hothers, horder.mem_iff]

theorem entries_ofList_perm (h : (pairs.map Prod.fst).Nodup) : (ofList pairs).entries.Perm pairs := by
  refine (List.perm_ext_iff_of_nodup (.of_map _ (ofList pairs).names_nodup) (.of_map _ h)).mpr ?_
  intro e
  rw [← get?_ofList_eq_some_iff h, ← get?_eq_some_iff]

end Table

namespace Grammar

open Spelling

def Reading (rule : String × List String) (entry : String × Rule) : Prop :=
  ∃ ts, rule.2.mapM Template.parse = .ok ts ∧ entry = (rule.1, ⟨rule.1, ts⟩)

variable {rules : List (String × List String)} {g : Grammar}

theorem insertRule_eq_ok_iff {rule : String × List String} {h : Grammar} :
    g.insertRule rule.1 rule.2 = .ok h ↔
      ∃ entry, Reading rule entry ∧ h = { g with rules := g.rules.insert entry.1 entry.2 } := by
  rw [insertRule, bind_eq_ok]
  constructor
  · rintro ⟨ts, hts, hmade⟩
    cases hmade
    exact ⟨_, ⟨ts, hts, rfl⟩, rfl⟩
  · rintro ⟨_, ⟨ts, hts, rfl⟩, rfl⟩
    exact ⟨ts, hts, rfl⟩

theorem ofRules_eq_ok_iff :
    ofRules rules = .ok g ↔
      ∃ entries, List.Forall₂ Reading rules entries ∧ g = ⟨.ofList entries, English.modifiers⟩ := by
  have hfold : ∀ start : Grammar,
      rules.foldlM (fun g rule => g.insertRule rule.1 rule.2) start = .ok g ↔
        ∃ entries, List.Forall₂ Reading rules entries ∧
          g = { start with rules := entries.foldl (fun t e => t.insert e.1 e.2) start.rules } := by
    induction rules with
    | nil =>
      intro start
      simp [pure, Except.pure, eq_comm]
    | cons rule rest ih =>
      intro start
      rw [List.foldlM_cons, bind_eq_ok]
      simp only [insertRule_eq_ok_iff, ih, List.forall₂_cons_left_iff]
      constructor
      · rintro ⟨_, ⟨entry, hentry, rfl⟩, entries, hentries, rfl⟩
        exact ⟨_, ⟨entry, entries, hentry, hentries, rfl⟩, rfl⟩
      · rintro ⟨_, ⟨entry, entries, hentry, hentries, rfl⟩, rfl⟩
        exact ⟨_, ⟨entry, hentry, rfl⟩, entries, hentries, rfl⟩
  exact hfold empty

theorem readings_names {entries : List (String × Rule)} (h : List.Forall₂ Reading rules entries) :
    entries.map Prod.fst = rules.map Prod.fst := by
  induction h with
  | nil => rfl
  | cons hentry _ ih =>
    obtain ⟨ts, -, rfl⟩ := hentry
    rw [List.map_cons, List.map_cons, ih]

theorem mem_readings {entries : List (String × Rule)} (h : List.Forall₂ Reading rules entries)
    {e : String × Rule} : e ∈ entries ↔ ∃ rule ∈ rules, Reading rule e := by
  induction h with
  | nil => simp
  | @cons rule entry _ _ hentry _ ih =>
    have hsame : e = entry ↔ Reading rule e := by
      obtain ⟨ts, hts, rfl⟩ := hentry
      constructor
      · rintro rfl
        exact ⟨ts, hts, rfl⟩
      · rintro ⟨us, hus, rfl⟩
        rw [Except.ok.inj (hus.symm.trans hts)]
    rw [List.mem_cons, List.exists_mem_cons_iff, ih, hsame]

theorem ofRules_perm {order : List (String × List String)} (hnames : (rules.map Prod.fst).Nodup)
    (horder : order.Perm rules) (h : ofRules rules = .ok g) : ofRules order = .ok g := by
  obtain ⟨entries, hentries, rfl⟩ := ofRules_eq_ok_iff.mp h
  obtain ⟨others, hothers, hperm⟩ := List.perm_comp_forall₂ horder hentries
  refine ofRules_eq_ok_iff.mpr ⟨others, hothers, ?_⟩
  rw [← readings_names hentries] at hnames
  rw [Table.ofList_perm hnames hperm]

theorem ofTable_eq_ok_iff (hnames : (rules.map Prod.fst).Nodup) :
    ofTable (.ofList rules) = .ok g ↔ ofRules rules = .ok g := by
  have horder := Table.entries_ofList_perm hnames
  have hentries : ((Table.ofList rules).entries.map Prod.fst).Nodup :=
    (horder.map Prod.fst).nodup_iff.mpr hnames
  have hsame : ofRules (Table.ofList rules).entries = .ok g ↔ ofRules rules = .ok g :=
    ⟨ofRules_perm hentries horder.symm, ofRules_perm hnames horder⟩
  rw [← hsame, ofTable]
  cases ofRules (Table.ofList rules).entries <;> simp [Except.mapError]

theorem ofText_object {text : String} (h : Object rules text) (format : RuleFormat) :
    ofText format text = ofTable (.ofList rules) := by
  cases format with
  | json =>
    change ofJson text = _
    rw [ofJson, readObject_object h]
    rfl
  | ron =>
    change ofRon text = _
    rw [ofRon, Ron.parse?_object h]

theorem ofTable_eq_error {t : Table (List String)} (h : ∀ g, ofTable t ≠ .ok g) :
    ∃ cause, ofTable t = .error (.template cause) := by
  unfold ofTable at h ⊢
  cases hrules : ofRules t.entries with
  | ok g => exact absurd (by rw [hrules]; rfl) (h g)
  | error cause => exact ⟨cause, rfl⟩

theorem rule?_of_ofRules (hnames : (rules.map Prod.fst).Nodup) (h : ofRules rules = .ok g)
    (name : String) (ts : List Template) :
    (g.rule? name).map Rule.alternatives = some ts ↔
      ∃ texts, (name, texts) ∈ rules ∧ texts.mapM Template.parse = .ok ts := by
  obtain ⟨entries, hentries, rfl⟩ := ofRules_eq_ok_iff.mp h
  have hdistinct := hnames
  rw [← readings_names hentries] at hdistinct
  have hrule : ∀ rule, Grammar.rule? ⟨.ofList entries, English.modifiers⟩ name = some rule ↔
      ∃ read ∈ rules, Reading read (name, rule) := fun rule =>
    (Table.get?_ofList_eq_some_iff hdistinct).trans (mem_readings hentries)
  rw [Option.map_eq_some_iff]
  constructor
  · rintro ⟨rule, hfound, rfl⟩
    obtain ⟨⟨_, texts⟩, hmem, ts, hts, heq⟩ := (hrule rule).mp hfound
    cases heq
    exact ⟨texts, hmem, hts⟩
  · rintro ⟨texts, hmem, hts⟩
    exact ⟨⟨name, ts⟩, (hrule _).mpr ⟨_, hmem, ts, hts, rfl⟩, rfl⟩

/-- Rules with names of their own, in any order and written as an object in either format: they all
make the same grammar, in which each name has what its texts spell, or all of them fail for a template
that cannot be read. Without control characters they can be written in every order. -/
theorem loaders_agree (hnames : (rules.map Prod.fst).Nodup) :
    ((∃ g, (∀ order, order.Perm rules → ofRules order = .ok g) ∧
        (∀ order text format, order.Perm rules → Object order text → ofText format text = .ok g) ∧
        ∀ name ts, (g.rule? name).map Rule.alternatives = some ts ↔
          ∃ texts, (name, texts) ∈ rules ∧ texts.mapM Template.parse = .ok ts) ∨
      (∀ order, order.Perm rules → ∃ cause, ofRules order = .error cause) ∧
        ∀ order text format, order.Perm rules → Object order text →
          ∃ cause, ofText format text = .error (.template cause)) ∧
    ((∀ rule ∈ rules, Printable rule.1 ∧ ∀ s ∈ rule.2, Printable s) →
      ∀ order, order.Perm rules → ∃ text, Object order text) := by
  refine ⟨?_, fun hprintable order horder =>
    exists_object fun rule hrule => hprintable rule (horder.mem_iff.mp hrule)⟩
  have hothers : ∀ {order : List (String × List String)}, order.Perm rules →
      (order.map Prod.fst).Nodup := fun horder => (horder.map Prod.fst).nodup_iff.mpr hnames
  cases hrules : ofRules rules with
  | ok g =>
    refine .inl ⟨g, fun order horder => ofRules_perm hnames horder hrules, ?_,
      rule?_of_ofRules hnames hrules⟩
    intro order text format horder htext
    rw [ofText_object htext, ofTable_eq_ok_iff (hothers horder)]
    exact ofRules_perm hnames horder hrules
  | error mistake =>
    have hfails : ∀ {order : List (String × List String)}, order.Perm rules →
        ∀ g, ofRules order ≠ .ok g := by
      intro order horder g hg
      have hok := ofRules_perm (hothers horder) horder.symm hg
      rw [hrules] at hok
      cases hok
    refine .inr ⟨fun order horder => ?_, fun order text format horder htext => ?_⟩
    · cases horders : ofRules order with
      | ok g => exact absurd horders (hfails horder g)
      | error cause => exact ⟨cause, rfl⟩
    · rw [ofText_object htext]
      refine ofTable_eq_error fun g hg => hfails horder g ?_
      exact (ofTable_eq_ok_iff (hothers horder)).mp hg

def hello : List (String × List String) := [("hello", ["#word#"]), ("word", ["\"hi\"", "\\#"])]

def helloGrammar : Grammar where
  rules := .ofList [("hello", ⟨"hello", [⟨[.tag (.bare "word")]⟩]⟩),
    ("word", ⟨"word", [.literal "\"hi\"", .literal "#"]⟩)]
  modifiers := English.modifiers

def helloText : String :=
  "\x7b \"word\": [\"\\\"hi\\\"\", \"\\\\#\"],\n\"hello\" : \"#word#\" \x7d\n"

theorem helloText_object : Object hello.reverse helloText := by
  let words := [] ++ (quoted "\"hi\"" ++ ([] ++ ',' :: ([' '] ++ (quoted "\\#" ++ []))))
  let first := quoted "word" ++ ([] ++ ':' :: ([' '] ++ '[' :: (words ++ [']'])))
  let second := quoted "hello" ++ ([' '] ++ ':' :: ([' '] ++ quoted "#word#"))
  have hwords : Entry ["\"hi\"", "\\#"] ('[' :: (words ++ [']'])) :=
    .list (.some (.more (by decide) (.mk (by decide)) (by decide)
      (.last (by decide) (.mk (by decide)) (by decide))))
  have hfirst : Member ("word", ["\"hi\"", "\\#"]) first :=
    .mk (.mk (by decide)) (by decide) (by decide) hwords
  have hsecond : Member ("hello", ["#word#"]) second :=
    .mk (.mk (by decide)) (by decide) (by decide) (.one (.mk (by decide)))
  have hmembers : Separated Member hello.reverse
      ([' '] ++ (first ++ ([] ++ ',' :: (['\n'] ++ (second ++ [' ']))))) :=
    .more (by decide) hfirst (by decide) (.last (by decide) hsecond (by decide))
  exact @Object.mk _ [] _ ['\n'] (by decide) (.some hmembers) (by decide)

theorem hello_agrees : ofRules hello = .ok helloGrammar ∧
    ofText .json helloText = .ok helloGrammar ∧ ofText .ron helloText = .ok helloGrammar := by
  have hname : IsName "word" := by decide
  have hword : Template.parse "#word#" = .ok ⟨[.tag (.bare "word")]⟩ := (Template.parse_bare hname :)
  have hhi : Template.parse "\"hi\"" = .ok (.literal "\"hi\"") := by cbv
  have hsign : Template.parse "\\#" = .ok (.literal "#") := by cbv
  have hrules : ofRules hello = .ok helloGrammar := by
    simp only [hello, ofRules, insertRule, List.foldlM_cons, List.mapM_cons, hword, hhi, hsign]
    rfl
  obtain ⟨hagree, -⟩ := loaders_agree (show (hello.map Prod.fst).Nodup by decide)
  rcases hagree with ⟨g, hg, htext, -⟩ | ⟨hfails, -⟩
  · obtain rfl := Except.ok.inj ((hg hello (.refl _)).symm.trans hrules)
    have horder : hello.reverse.Perm hello := List.reverse_perm hello
    exact ⟨hrules, htext _ _ _ horder helloText_object, htext _ _ _ horder helloText_object⟩
  · obtain ⟨cause, hcause⟩ := hfails hello (.refl _)
    rw [hrules] at hcause
    cases hcause

end Grammar

end Announcer
