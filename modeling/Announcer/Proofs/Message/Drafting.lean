import Announcer.Proofs.Loading.Agreement
import Announcer.Proofs.Message.Delivery

/-! # Drafting

A draft is set up in any order and as often as one likes. Of each kind of setting the last one counts,
and the grammars do not count once there are rules. With a seed the draft becomes the message that is
composed of the last settings, and whatever stands in the way of that message stands in its way too.
-/
namespace Announcer

open Chance (Generator)

inductive Setting where
  | origin (text : String)
  | grammar (grammar : Grammar)
  | rules (rules : Table (List String))
  | time (time : Instant)
  | seed (seed : UInt64)

namespace Setting

def origin? : Setting → Option String
  | .origin text => some text
  | _ => none

def grammar? : Setting → Option Grammar
  | .grammar g => some g
  | _ => none

def rules? : Setting → Option (Table (List String))
  | .rules texts => some texts
  | _ => none

def time? : Setting → Option Instant
  | .time instant => some instant
  | _ => none

def seed? : Setting → Option UInt64
  | .seed value => some value
  | _ => none

def last? {α : Type} (kind : Setting → Option α) (settings : List Setting) : Option α :=
  (settings.filterMap kind).getLast?

theorem last?_cons {α : Type} (kind : Setting → Option α) (s : Setting) (rest : List Setting) :
    last? kind (s :: rest) = (last? kind rest).or (kind s) := by
  cases hs : kind s with
  | none => simp [last?, hs]
  | some value =>
    cases hrest : (rest.filterMap kind).getLast? <;>
      simp [last?, hs, List.getLast?_cons, hrest]

end Setting

open Setting (last?)

namespace Draft

def set (d : Draft) : Setting → Draft
  | .origin text => d.withOrigin text
  | .grammar g => d.withGrammar g
  | .rules texts => d.withRules texts
  | .time instant => d.scheduledFor instant
  | .seed value => d.withSeed value

def setAll (d : Draft) (settings : List Setting) : Draft := settings.foldl set d

theorem set_eq (d : Draft) (s : Setting) :
    d.set s = ⟨d.target, s.origin?.getD d.origin, s.grammar?.or d.grammar, s.rules?.or d.rules,
      s.time?.or d.scheduledTime, s.seed?.or d.seed⟩ := by
  cases s <;> rfl

theorem setAll_eq (d : Draft) (settings : List Setting) :
    d.setAll settings =
      ⟨d.target, (last? Setting.origin? settings).getD d.origin,
        (last? Setting.grammar? settings).or d.grammar, (last? Setting.rules? settings).or d.rules,
        (last? Setting.time? settings).or d.scheduledTime,
        (last? Setting.seed? settings).or d.seed⟩ := by
  induction settings generalizing d with
  | nil => rfl
  | cons s rest ih =>
    change (d.set s).setAll rest = _
    rw [ih, set_eq]
    simp only [Setting.last?_cons, Option.or_assoc, Option.getD_or]

section Built

variable (target : String) (settings : List Setting) (now : Instant)

/-- The grammar that the settings call for. Rules are read in the order of their names. -/
def grammarOf : Except ParseError Grammar :=
  match last? Setting.rules? settings with
  | some texts => Grammar.ofRules texts.entries
  | none => .ok ((last? Setting.grammar? settings).getD .empty)

/-- The message that is composed directly, with the last origin and the last time. -/
def composed (seed : UInt64) (g : Grammar) : Except MessageError Message :=
  (Message.compose target ((last? Setting.origin? settings).getD "#origin#") g
    ((last? Setting.time? settings).getD now) (Generator.ofSeed seed)).1

structure BuiltFromLast (seed : UInt64) (built : Except MessageError Message) : Prop where
  composed : built = match grammarOf settings with
    | .error cause => .error (.expansion (.template cause))
    | .ok g => composed target settings now seed g
  listed : ∀ texts listing, last? Setting.rules? settings = some texts →
    listing.Perm texts.entries →
    (∀ g, Grammar.ofRules listing = .ok g → built = Draft.composed target settings now seed g) ∧
      ∀ mistake, Grammar.ofRules listing = .error mistake →
        ∃ cause, built = .error (.expansion (.template cause))
  message : ∀ m, built = .ok m ↔ target ≠ "" ∧ grammarOf settings = .ok m.grammar ∧
    (m.grammar.flatten ((last? Setting.origin? settings).getD "#origin#")
      (Generator.ofSeed seed)).1 = .ok m.text ∧
    m.target = target ∧ m.scheduledTime = (last? Setting.time? settings).getD now ∧
    m.state = .unsent
  emptyTarget : target = "" → ∀ g, grammarOf settings = .ok g → built = .error .emptyTarget
  settled : ∀ others entropy,
    last? Setting.origin? others = last? Setting.origin? settings →
    last? Setting.rules? others = last? Setting.rules? settings →
    last? Setting.time? others = last? Setting.time? settings →
    last? Setting.seed? others = last? Setting.seed? settings →
    (last? Setting.rules? settings = none →
      last? Setting.grammar? others = last? Setting.grammar? settings) →
    ((new target).setAll others).build now entropy = built

variable {target settings now} {seed : UInt64}

theorem chosenGrammar_setAll : ((new target).setAll settings).chosenGrammar = grammarOf settings := by
  rw [setAll_eq, chosenGrammar, grammarOf]
  cases last? Setting.rules? settings with
  | none => simp [new, pure, Except.pure]
  | some texts => rfl

theorem build_setAll (hseed : last? Setting.seed? settings = some seed) (entropy : Generator) :
    ((new target).setAll settings).build now entropy = match grammarOf settings with
      | .error cause => .error (.expansion (.template cause))
      | .ok g => composed target settings now seed g := by
  rw [build, chosenGrammar_setAll]
  cases grammarOf settings with
  | error cause => rfl
  | ok g =>
    rw [setAll_eq, hseed]
    simp [new, composed, Except.mapError, bind, Except.bind, defaultOrigin]

theorem composed_eq_ok_iff {g : Grammar} {m : Message} :
    composed target settings now seed g = .ok m ↔ target ≠ "" ∧
      (g.flatten ((last? Setting.origin? settings).getD "#origin#")
        (Generator.ofSeed seed)).1 = .ok m.text ∧
      m.grammar = g ∧ m.target = target ∧
      m.scheduledTime = (last? Setting.time? settings).getD now ∧ m.state = .unsent := by
  constructor
  · intro h
    have hcompose : Message.compose _ _ g _ (Generator.ofSeed seed) = (.ok m, _) := Prod.ext h rfl
    obtain ⟨text, hflatten, rfl⟩ := Message.compose_eq_ok hcompose
    refine ⟨?_, by rw [hflatten], rfl, rfl, rfl, rfl⟩
    rintro rfl
    cases h
  · obtain ⟨_, grammar, text, _, _⟩ := m
    rintro ⟨htarget, hflatten, rfl, rfl, rfl, rfl⟩
    simp only [composed, Message.compose, String.isEmpty_iff, if_neg htarget]
    split
    next cause rest heq => rw [heq] at hflatten; cases hflatten
    next found rest heq => rw [heq] at hflatten; cases hflatten; rfl

/-- Rules that can be read in one order can be read in every order, and give the same grammar. -/
theorem grammarOf_listed {texts : Table (List String)} {listing : List (String × List String)}
    (htexts : last? Setting.rules? settings = some texts) (horder : listing.Perm texts.entries)
    (g : Grammar) : Grammar.ofRules listing = .ok g ↔ grammarOf settings = .ok g := by
  have hnames : (texts.entries.map Prod.fst).Nodup := texts.names_nodup
  have hlisting : (listing.map Prod.fst).Nodup := (horder.map Prod.fst).nodup_iff.mpr hnames
  simp only [grammarOf, htexts]
  exact ⟨Grammar.ofRules_perm hlisting horder.symm, Grammar.ofRules_perm hnames horder⟩

theorem grammarOf_congr {others : List Setting}
    (hrules : last? Setting.rules? others = last? Setting.rules? settings)
    (hgrammar : last? Setting.rules? settings = none →
      last? Setting.grammar? others = last? Setting.grammar? settings) :
    grammarOf others = grammarOf settings := by
  rw [grammarOf, grammarOf, hrules]
  cases hlast : last? Setting.rules? settings with
  | none => rw [hgrammar hlast]
  | some texts => rfl

/-- However a draft with a seed is set up, it is built from the last settings as if the message were
composed directly: rules come before grammars, and a fault in them before a missing target. -/
theorem built_from_last (hseed : last? Setting.seed? settings = some seed) (entropy : Generator) :
    BuiltFromLast target settings now seed
      (((new target).setAll settings).build now entropy) := by
  have hbuilt : ((new target).setAll settings).build now entropy = _ := build_setAll hseed entropy
  generalize ((new target).setAll settings).build now entropy = built at hbuilt
  constructor
  case composed => exact hbuilt
  case listed =>
    intro texts listing htexts horder
    refine ⟨fun g hg => ?_, fun mistake hmistake => ?_⟩
    · rw [hbuilt, (grammarOf_listed htexts horder g).mp hg]
    · cases hg : grammarOf settings with
      | error cause => exact ⟨cause, by rw [hbuilt, hg]⟩
      | ok g =>
        rw [(grammarOf_listed htexts horder g).mpr hg] at hmistake
        cases hmistake
  case message =>
    intro m
    rw [hbuilt]
    cases grammarOf settings with
    | error cause => simp
    | ok g =>
      simp only [composed_eq_ok_iff, Except.ok.injEq]
      constructor
      · rintro ⟨htarget, hflatten, rfl, hrest⟩
        exact ⟨htarget, rfl, hflatten, hrest⟩
      · rintro ⟨htarget, rfl, hflatten, hrest⟩
        exact ⟨htarget, hflatten, rfl, hrest⟩
  case emptyTarget =>
    rintro rfl g hg
    rw [hbuilt, hg]
    rfl
  case settled =>
    intro others entropy horigin hrules htime hothers hgrammar
    rw [build_setAll (hothers.trans hseed), grammarOf_congr hrules hgrammar, hbuilt]
    cases grammarOf settings with
    | error cause => rfl
    | ok g => simp only [composed, horigin, htime]

end Built

/-- An origin that is replaced, a seed that is replaced, and a grammar that does not count. -/
def secondThoughts : List Setting :=
  [.seed 1, .origin "#ghost#", .rules (.ofList [("name", ["all"])]), .time 5, .origin "Hi",
    .grammar .empty, .seed 7]

def allGrammar : Grammar := ⟨.ofList [("name", ⟨"name", [.literal "all"]⟩)], English.modifiers⟩

theorem secondThoughts_built : last? Setting.seed? secondThoughts = some 7 ∧
    (∃ m, ((new "general").setAll secondThoughts).build 0 (Generator.ofSeed 0) = .ok m ∧
      m.text = "Hi" ∧ m.grammar.rules.names = ["name"] ∧ m.scheduledTime = 5) ∧
    BuiltFromLast "general" secondThoughts 0 7
      (((new "general").setAll secondThoughts).build 0 (Generator.ofSeed 0)) := by
  have hseed : last? Setting.seed? secondThoughts = some 7 := rfl
  have hbuilt : BuiltFromLast "general" secondThoughts 0 7 _ :=
    built_from_last hseed (Generator.ofSeed 0)
  have hname : Template.parse "all" = .ok (.literal "all") := by cbv
  have hgrammar : grammarOf secondThoughts = .ok allGrammar := by
    change Grammar.ofRules [("name", ["all"])] = _
    simp only [Grammar.ofRules, Grammar.insertRule, List.foldlM_cons, List.mapM_cons, hname]
    rfl
  have hplain : ∀ source : Generator, (allGrammar.flatten "Hi" source).1 = .ok "Hi" := by
    intro source
    cbv
  refine ⟨hseed, ⟨⟨"general", allGrammar, "Hi", 5, .unsent⟩, ?_, rfl, rfl, rfl⟩, hbuilt⟩
  exact (hbuilt.message _).mpr ⟨by decide, hgrammar, hplain _, rfl, rfl, rfl⟩

end Draft

end Announcer
