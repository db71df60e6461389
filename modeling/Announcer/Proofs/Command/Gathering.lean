import Announcer.Command.Lint
import Announcer.Proofs.Grammar.History
import Announcer.Proofs.Grammar.Merge
import Mathlib

/-! # Rules gathered from files

The lint command merges the rule files of a directory in the order in which the directory lists
them, and passes over those that cannot be read. So a name has the rule of the last file that
defines it. A listing in another order leads to the same findings unless two files give a name
different templates.
-/
namespace Announcer

theorem notMem_of_mem_splitOn {α : Type} [BEq α] [LawfulBEq α] {a : α} {xs part : List α}
    (h : part ∈ xs.splitOn a) : a ∉ part := by
  induction xs generalizing part with
  | nil =>
    obtain rfl : part = [] := by simpa using h
    exact List.not_mem_nil
  | cons x rest ih =>
    rw [List.splitOn_cons_eq_if_modifyHead] at h
    by_cases hx : x = a
    · rw [if_pos (by simpa using hx), List.mem_cons] at h
      rcases h with rfl | h
      · exact List.not_mem_nil
      · exact ih h
    · rw [if_neg (by simpa using hx)] at h
      obtain ⟨first, others, hparts⟩ := List.exists_cons_of_ne_nil (List.splitOn_ne_nil a rest)
      rw [hparts, List.modifyHead_cons, List.mem_cons] at h
      rw [hparts] at ih
      rcases h with rfl | h
      · simpa [Ne.symm hx] using ih List.mem_cons_self
      · exact ih (List.mem_cons_of_mem _ h)

theorem fileName?_of_fileName? {path name : String} (h : fileName? path = some name) :
    fileName? name = some name := by
  unfold fileName? at h
  have hlast : ((pathParts path).filter fun part => part ≠ "" ∧ part ≠ ".").getLast? = some name ∧
      name ≠ ".." := by
    split at h
    next => cases h
    next hother => exact ⟨h, fun heq => hother (heq ▸ h)⟩
  obtain ⟨hlast, hup⟩ := hlast
  obtain ⟨hmem, hplain⟩ := List.mem_filter.mp (List.mem_of_getLast? hlast)
  obtain ⟨part, hpart, rfl⟩ := List.mem_map.mp hmem
  have hparts : pathParts (String.ofList part) = [String.ofList part] := by
    rw [pathParts, String.toList_ofList, List.splitOn_eq_singleton (notMem_of_mem_splitOn hpart),
      List.map_singleton]
  unfold fileName?
  have hfilter : [String.ofList part].filter (fun part => part ≠ "" ∧ part ≠ ".") =
      [String.ofList part] := List.filter_cons_of_pos hplain
  rw [hparts, hfilter, List.getLast?_singleton]
  split
  next heq => exact absurd (Option.some.inj heq) hup
  next => rfl

theorem extension?_of_fileName? {path name : String} (h : fileName? path = some name) :
    extension? path = extension? name := by
  unfold extension?
  rw [h, fileName?_of_fileName? h]

theorem FileTree.text_toUTF8 (text : String) : (FileTree.file text.toUTF8).text = .ok text := by
  have hvalid : text.toUTF8.IsValidUTF8 := text.isValidUTF8
  simp only [FileTree.text, String.fromUTF8?, dif_pos hvalid]
  rfl

theorem Grammar.eq_of_fields {g h : Grammar} (hrules : g.rules = h.rules)
    (hmodifiers : g.modifiers = h.modifiers) : g = h := by
  obtain ⟨rules, modifiers⟩ := g
  obtain ⟨others, modifiers'⟩ := h
  obtain rfl : rules = others := hrules
  obtain rfl : modifiers = modifiers' := hmodifiers
  rfl

namespace Command

namespace Lint

mutual

/-- The grammars of the rule files of a tree, in the order in which they are read. -/
def treeGrammars (name : String) : FileTree → List Grammar
  | .directory entries => grammars entries
  | .file bytes => if isRuleFile name then (loadBytes name (.file bytes)).toOption.toList else []

def grammars : List (String × FileTree) → List Grammar
  | [] => []
  | (name, tree) :: rest => treeGrammars name tree ++ grammars rest

end

-- The recursion goes over trees and listings, so these two and the next two are proved together.
mutual

theorem gatherTree_eq (g : Grammar) (name : String) (tree : FileTree) :
    gatherTree g name tree = (treeGrammars name tree).foldl Grammar.merge g := by
  cases tree with
  | directory entries => exact gatherEntries_eq g entries
  | file bytes =>
    rw [gatherTree, treeGrammars]
    by_cases hrule : isRuleFile name = true
    · rw [if_pos hrule, if_pos hrule]
      cases loadBytes name (.file bytes) <;> rfl
    · rw [if_neg hrule, if_neg hrule]
      rfl

theorem gatherEntries_eq (g : Grammar) (entries : List (String × FileTree)) :
    gatherEntries g entries = (grammars entries).foldl Grammar.merge g := by
  cases entries with
  | nil => rfl
  | cons entry rest =>
    obtain ⟨name, tree⟩ := entry
    rw [gatherEntries, grammars, List.foldl_append, gatherTree_eq g name tree,
      gatherEntries_eq _ rest]

end

mutual

theorem treeGrammars_reached (name : String) (tree : FileTree) :
    ∀ g ∈ treeGrammars name tree, g.Reached := by
  cases tree with
  | directory entries => exact grammars_reached entries
  | file bytes =>
    intro g hg
    rw [treeGrammars] at hg
    by_cases hrule : isRuleFile name = true
    · rw [if_pos hrule, Option.mem_toList] at hg
      cases hload : loadBytes name (.file bytes) with
      | error cause => simp [hload, Except.toOption] at hg
      | ok found =>
        obtain rfl : found = g := by simpa [hload, Except.toOption] using hg
        unfold loadBytes at hload
        obtain ⟨text, -, htext⟩ := bind_eq_ok.mp hload
        exact .text htext
    · rw [if_neg hrule] at hg
      cases hg

theorem grammars_reached (entries : List (String × FileTree)) :
    ∀ g ∈ grammars entries, g.Reached := by
  cases entries with
  | nil =>
    intro g hg
    cases hg
  | cons entry rest =>
    obtain ⟨name, tree⟩ := entry
    intro g hg
    rw [grammars, List.mem_append] at hg
    exact hg.elim (treeGrammars_reached name tree g) (grammars_reached rest g)

end

theorem rule?_foldl_merge (gs : List Grammar) (g : Grammar) (name : String) :
    (gs.foldl Grammar.merge g).rule? name =
      (gs.reverse.findSome? (·.rule? name)).or (g.rule? name) := by
  induction gs generalizing g with
  | nil => rfl
  | cons first rest ih =>
    rw [List.foldl_cons, ih, Grammar.rule?_merge, List.reverse_cons, List.findSome?_append,
      Option.or_assoc]
    simp

theorem modifiers_foldl_merge (gs : List Grammar) (g : Grammar) :
    (gs.foldl Grammar.merge g).modifiers = g.modifiers := by
  induction gs generalizing g with
  | nil => rfl
  | cons first rest ih => exact ih (g.merge first)

variable {entries order : List (String × FileTree)} {name : String}

theorem rule?_gatherEntries (entries : List (String × FileTree)) (name : String) :
    (gatherEntries .empty entries).rule? name =
      (grammars entries).reverse.findSome? (·.rule? name) := by
  rw [gatherEntries_eq, rule?_foldl_merge]
  exact Option.or_none

theorem rule?_gatherEntries_eq_none :
    (gatherEntries .empty entries).rule? name = none ↔
      ∀ g ∈ grammars entries, g.rule? name = none := by
  rw [rule?_gatherEntries, List.findSome?_eq_none_iff]
  simp

/-- The files after the one that a rule is from do not define its name. -/
theorem rule?_gatherEntries_eq_some {rule : Rule} :
    (gatherEntries .empty entries).rule? name = some rule ↔
      ∃ before g after, grammars entries = before ++ g :: after ∧ g.rule? name = some rule ∧
        ∀ later ∈ after, later.rule? name = none := by
  rw [rule?_gatherEntries, List.findSome?_eq_some_iff]
  constructor
  · rintro ⟨after, g, before, hsplit, hrule, hlater⟩
    refine ⟨before.reverse, g, after.reverse, ?_, hrule, fun later hmem => ?_⟩
    · rw [← List.reverse_reverse (grammars entries), hsplit]
      simp
    · exact hlater later (List.mem_reverse.mp hmem)
  · rintro ⟨before, g, after, hsplit, hrule, hlater⟩
    refine ⟨after.reverse, g, before.reverse, ?_, hrule, fun later hmem => ?_⟩
    · rw [hsplit]
      simp
    · exact hlater later (List.mem_reverse.mp hmem)

/-- The same directory listed twice: the entries are in any order, those of the directories below it
too. -/
inductive Relisted : List (String × FileTree) → List (String × FileTree) → Prop where
  | perm {xs ys} : xs.Perm ys → Relisted xs ys
  | inside {inner others} (before) (name) (after) : Relisted inner others →
      Relisted (before ++ (name, .directory inner) :: after)
        (before ++ (name, .directory others) :: after)
  | trans {xs ys zs} : Relisted xs ys → Relisted ys zs → Relisted xs zs

theorem grammars_append (entries more : List (String × FileTree)) :
    grammars (entries ++ more) = grammars entries ++ grammars more := by
  induction entries with
  | nil => rfl
  | cons entry rest ih =>
    obtain ⟨name, tree⟩ := entry
    rw [List.cons_append, grammars, grammars, ih, List.append_assoc]

theorem grammars_perm (h : entries.Perm order) : (grammars entries).Perm (grammars order) := by
  induction h with
  | nil => exact .refl _
  | cons entry _ ih =>
    obtain ⟨name, tree⟩ := entry
    exact ih.append_left (treeGrammars name tree)
  | swap first second rest => exact List.perm_append_comm_assoc _ _ _
  | trans _ _ ihx ihy => exact ihx.trans ihy

theorem Relisted.grammars_perm (h : Relisted entries order) :
    (grammars entries).Perm (grammars order) := by
  induction h with
  | perm h => exact Lint.grammars_perm h
  | inside before name after _ ih =>
    rw [grammars_append, grammars_append, grammars, grammars]
    exact (ih.append_right (grammars after)).append_left (grammars before)
  | trans _ _ ihx ihy => exact ihx.trans ihy

def AgreeOn (name : String) (entries : List (String × FileTree)) : Prop :=
  ∀ f ∈ grammars entries, ∀ g ∈ grammars entries, ∀ r s, f.rule? name = some r →
    g.rule? name = some s → r.alternatives = s.alternatives

theorem Relisted.rule?_eq_none_iff (h : Relisted entries order) :
    (gatherEntries .empty entries).rule? name = none ↔
      (gatherEntries .empty order).rule? name = none := by
  rw [rule?_gatherEntries_eq_none, rule?_gatherEntries_eq_none]
  exact forall_congr' fun g => imp_congr_left h.grammars_perm.mem_iff

/-- Where the files agree, it does not matter which of them comes last. -/
theorem Relisted.rule?_eq (h : Relisted entries order) (hagree : AgreeOn name entries) :
    (gatherEntries .empty entries).rule? name = (gatherEntries .empty order).rule? name := by
  cases hfirst : (gatherEntries .empty entries).rule? name with
  | none => exact (h.rule?_eq_none_iff.mp hfirst).symm
  | some r =>
    cases hsecond : (gatherEntries .empty order).rule? name with
    | none =>
      rw [h.rule?_eq_none_iff.mpr hsecond] at hfirst
      cases hfirst
    | some s =>
      obtain ⟨_, f, _, hsplit, hr, -⟩ := rule?_gatherEntries_eq_some.mp hfirst
      obtain ⟨_, g, _, hsplit', hs, -⟩ := rule?_gatherEntries_eq_some.mp hsecond
      have hf : f ∈ grammars entries := by simp [hsplit]
      have hg : g ∈ grammars entries := h.grammars_perm.mem_iff.mpr (by simp [hsplit'])
      have hname : r.name = s.name :=
        ((grammars_reached entries f hf).named name r hr).trans
          ((grammars_reached entries g hg).named name s hs).symm
      have halternatives : r.alternatives = s.alternatives := hagree f hf g hg r s hr hs
      obtain ⟨first, ts⟩ := r
      obtain ⟨second, us⟩ := s
      obtain rfl : first = second := hname
      obtain rfl : ts = us := halternatives
      rfl

theorem Relisted.gatherEntries_eq (h : Relisted entries order)
    (hagree : ∀ name, AgreeOn name entries) :
    gatherEntries .empty entries = gatherEntries .empty order := by
  have hrules : (gatherEntries .empty entries).rules = (gatherEntries .empty order).rules :=
    Table.ext_get? fun name => h.rule?_eq (hagree name)
  have hmodifiers : (gatherEntries .empty entries).modifiers =
      (gatherEntries .empty order).modifiers := by
    rw [Lint.gatherEntries_eq, Lint.gatherEntries_eq, modifiers_foldl_merge, modifiers_foldl_merge]
  exact Grammar.eq_of_fields hrules hmodifiers

def findings (g : Grammar) : Outcome :=
  .printed (if g.lint.problems.isEmpty then 0 else 1) (render g.lint)

end Lint

open Lint

variable {files others : Files} {path dir name : String} {bytes : ByteArray}
  {entries order : List (String × FileTree)}

def IsHelp (arg : String) : Prop := arg = "--help" ∨ arg = "-h"

instance (arg : String) : Decidable (IsHelp arg) := inferInstanceAs (Decidable (_ ∨ _))

theorem lint_directory (hdir : files dir = .ok (.directory entries)) (hhelp : ¬ IsHelp dir)
    (wording : Wording) :
    lint files [dir] wording = findings (gatherEntries .empty entries) := by
  have hgather : gather files dir wording = .ok (gatherEntries .empty entries) := by
    rw [gather, hdir]
    rfl
  unfold IsHelp at hhelp
  simp only [lint, if_neg hhelp, hgather, findings]

theorem lint_file (hfile : files path = .ok (.file bytes)) (hhelp : ¬ IsHelp path)
    (wording : Wording) :
    lint files [path] wording =
      match Grammar.load files path with
      | .ok g => findings (Grammar.empty.merge g)
      | .error cause =>
        .failed s!"ERROR: Failed to load grammar file: {cause.message wording}" := by
  have hgather : gather files path wording =
      match Grammar.load files path with
      | .ok g => .ok (Grammar.empty.merge g)
      | .error cause =>
        .error s!"ERROR: Failed to load grammar file: {cause.message wording}" := by
    rw [gather, hfile]
    cases Grammar.load files path <;> rfl
  unfold IsHelp at hhelp
  simp only [lint, if_neg hhelp, hgather]
  cases Grammar.load files path <;> rfl

theorem load_eq_loadBytes (hfile : files path = .ok (.file bytes))
    (hname : fileName? path = some name) :
    Grammar.load files path = loadBytes name (.file bytes) := by
  rw [Grammar.load, Grammar.loadAs, Files.read, hfile, loadBytes, RuleFormat.ofPath,
    RuleFormat.ofPath, extension?_of_fileName? hname]
  rfl

theorem not_isHelp_of_isRuleFile (hname : fileName? path = some name)
    (hrule : isRuleFile name = true) : ¬ IsHelp path := by
  unfold isRuleFile at hrule
  rw [← extension?_of_fileName? hname] at hrule
  rintro (rfl | rfl)
  · exact absurd hrule (by decide)
  · exact absurd hrule (by decide)

theorem grammars_lone_file (hfile : files path = .ok (.file bytes))
    (hname : fileName? path = some name) (hrule : isRuleFile name = true) :
    grammars [(name, .file bytes)] = (Grammar.load files path).toOption.toList := by
  rw [load_eq_loadBytes hfile hname, grammars, treeGrammars, if_pos hrule]
  exact List.append_nil _

/-- A rule file that can be read is reported on in the same way alone and as all that a directory
holds. One that cannot be read is complained about alone, and is not there in the directory. -/
theorem lint_lone_file (hfile : files path = .ok (.file bytes))
    (hdir : files dir = .ok (.directory [(name, .file bytes)]))
    (hname : fileName? path = some name) (hrule : isRuleFile name = true) (hhelp : ¬ IsHelp dir)
    (wording : Wording) :
    (∀ g, Grammar.load files path = .ok g →
      lint files [path] wording = findings (Grammar.empty.merge g) ∧
        lint files [dir] wording = lint files [path] wording) ∧
    ∀ cause, Grammar.load files path = .error cause →
      lint files [path] wording =
          .failed s!"ERROR: Failed to load grammar file: {cause.message wording}" ∧
        lint files [dir] wording = .printed 0 (render ⟨[], [.noOrigin]⟩) := by
  have hpath := lint_file hfile (not_isHelp_of_isRuleFile hname hrule) wording
  have hfound := lint_directory hdir hhelp wording
  rw [gatherEntries_eq, grammars_lone_file hfile hname hrule] at hfound
  constructor
  · intro g hload
    rw [hload] at hpath hfound
    exact ⟨hpath, hfound.trans hpath.symm⟩
  · intro cause hload
    rw [hload] at hpath hfound
    exact ⟨hpath, hfound⟩

def lone (text : String) : Files :=
  (FileTree.directory [("d", .directory [("x.json", .file text.toUTF8)])]).find

theorem lone_file (text : String) : lone text "d/x.json" = .ok (.file text.toUTF8) := rfl

theorem lone_directory (text : String) :
    lone text "d" = .ok (.directory [("x.json", .file text.toUTF8)]) := rfl

theorem load_lone (text : String) :
    Grammar.load (lone text) "d/x.json" = Grammar.ofText .json text := by
  rw [load_eq_loadBytes (lone_file text) (show _ = some "x.json" by decide), loadBytes,
    FileTree.text_toUTF8]
  rfl

def greetingText : String := "\x7b\"origin\": [\"hi\", \"hello\"]\x7d"

def greeting : Grammar :=
  ⟨.ofList [("origin", ⟨"origin", [.literal "hi", .literal "hello"]⟩)], English.modifiers⟩

theorem load_greeting : Grammar.load (lone greetingText) "d/x.json" = .ok greeting := by
  rw [load_lone]
  cbv

theorem load_cut_off : Grammar.load (lone "\x7b") "d/x.json" = .error (.json .truncated) := by
  rw [load_lone]
  cbv

theorem greeting_alone_and_in_directory :
    lint (lone greetingText) ["d"] = lint (lone greetingText) ["d/x.json"] ∧
      (lint (lone greetingText) ["d/x.json"]).exitCode = 0 ∧
      (lint (lone "\x7b") ["d/x.json"]).exitCode = 1 ∧
      lint (lone "\x7b") ["d"] = .printed 0 (render ⟨[], [.noOrigin]⟩) := by
  have hname : fileName? "d/x.json" = some "x.json" := by decide
  obtain ⟨hgreeting, -⟩ := lint_lone_file (lone_file greetingText) (lone_directory greetingText)
    hname (by decide) (by decide) .brief
  obtain ⟨-, hbroken⟩ := lint_lone_file (lone_file "\x7b") (lone_directory "\x7b")
    hname (by decide) (by decide) .brief
  obtain ⟨hfindings, hsame⟩ := hgreeting _ load_greeting
  obtain ⟨hfails, hempty⟩ := hbroken _ load_cut_off
  refine ⟨hsame, ?_, ?_, hempty⟩
  · rw [hfindings]
    rfl
  · rw [hfails]
    rfl

/-- Linting a file that is cut off fails, and linting its directory does not. -/
theorem cut_off_file_differs : ¬ ∀ (files : Files) (path dir name : String) (bytes : ByteArray),
    files path = .ok (.file bytes) → files dir = .ok (.directory [(name, .file bytes)]) →
      fileName? path = some name → isRuleFile name = true → ¬ IsHelp dir →
        (lint files [path]).exitCode = (lint files [dir]).exitCode := by
  intro hclaim
  have hname : fileName? "d/x.json" = some "x.json" := by decide
  have hcodes := hclaim (lone "\x7b") "d/x.json" "d" "x.json" _ (lone_file _) (lone_directory _)
    hname (by decide) (by decide)
  rw [lint_file (lone_file _) (by decide) .brief,
    lint_directory (lone_directory _) (by decide) .brief, gatherEntries_eq,
    grammars_lone_file (lone_file _) hname (by decide), load_cut_off] at hcodes
  exact absurd hcodes (by decide)

/-- What the findings of a directory are about: each name has the rule of the file that is listed
last among those that define it. However the directory and those below it list their entries, the
same names have rules, and a name that no two files give different templates has the same rule. If
this goes for all names, the findings are the same. -/
theorem lint_relisted (hfiles : files dir = .ok (.directory entries))
    (hothers : others dir = .ok (.directory order)) (hlisted : Relisted entries order)
    (wording : Wording) :
    (¬ IsHelp dir → lint files [dir] wording = findings (gatherEntries .empty entries)) ∧
    (∀ name rule, (gatherEntries .empty entries).rule? name = some rule ↔
      ∃ before g after, grammars entries = before ++ g :: after ∧ g.rule? name = some rule ∧
        ∀ later ∈ after, later.rule? name = none) ∧
    (∀ name, (gatherEntries .empty entries).rule? name = none ↔
      (gatherEntries .empty order).rule? name = none) ∧
    (∀ name, AgreeOn name entries →
      (gatherEntries .empty entries).rule? name = (gatherEntries .empty order).rule? name) ∧
    ((∀ name, AgreeOn name entries) → lint files [dir] wording = lint others [dir] wording) := by
  refine ⟨fun hhelp => lint_directory hfiles hhelp wording, fun name rule =>
    rule?_gatherEntries_eq_some, fun name => hlisted.rule?_eq_none_iff,
    fun name => hlisted.rule?_eq, fun hagree => ?_⟩
  by_cases hhelp : IsHelp dir
  · unfold IsHelp at hhelp
    simp only [lint, if_pos hhelp]
  · rw [lint_directory hfiles hhelp, lint_directory hothers hhelp, hlisted.gatherEntries_eq hagree]

def written (text : String) : FileTree := .file text.toUTF8

theorem treeGrammars_written {text : String} {found : Except LoadError Grammar}
    (hname : extension? name = some "json") (hread : Grammar.ofText .json text = found) :
    treeGrammars name (written text) = found.toOption.toList := by
  have hrule : isRuleFile name = true := by simp [isRuleFile, hname]
  have hformat : RuleFormat.ofPath name = .json := by simp [RuleFormat.ofPath, hname]
  rw [written, treeGrammars, if_pos hrule, loadBytes, FileTree.text_toUTF8, hformat, ← hread]
  rfl

def listing (entries : List (String × FileTree)) : Files := fun _ => .ok (.directory entries)

def hiText : String := "\x7b\"x\":\"hi\"\x7d"

def hiListText : String := "\x7b\"x\":[\"hi\"]\x7d"

def nothingText : String := "\x7b\"x\":[]\x7d"

def saysHi : Grammar := ⟨.ofList [("x", ⟨"x", [.literal "hi"]⟩)], English.modifiers⟩

def saysNothing : Grammar := ⟨.ofList [("x", ⟨"x", []⟩)], English.modifiers⟩

theorem hiText_grammars : treeGrammars "a.json" (written hiText) = [saysHi] := by
  have hread : Grammar.ofText .json hiText = .ok saysHi := by cbv
  exact treeGrammars_written (by decide) hread

/-- Two files of the same rule, one of them next to a broken file in a directory below. -/
theorem hi_in_any_order :
    lint (listing [("a.json", written hiText),
        ("d", .directory [("b.json", written hiListText), ("c.json", written "\x7b")])]) ["rules"] =
      lint (listing [
        ("d", .directory [("c.json", written "\x7b"), ("b.json", written hiListText)]),
        ("a.json", written hiText)]) ["rules"] := by
  have hlist : treeGrammars "b.json" (written hiListText) = [saysHi] := by
    have hread : Grammar.ofText .json hiListText = .ok saysHi := by cbv
    exact treeGrammars_written (by decide) hread
  have hbroken : treeGrammars "c.json" (written "\x7b") = [] := by
    have hread : Grammar.ofText .json "\x7b" = .error (.json .truncated) := by cbv
    exact treeGrammars_written (by decide) hread
  have hgrammars : grammars [("a.json", written hiText),
      ("d", .directory [("b.json", written hiListText), ("c.json", written "\x7b")])] =
        [saysHi, saysHi] := by
    simp [grammars, treeGrammars, hiText_grammars, hlist, hbroken]
  refine (lint_relisted rfl rfl (.trans (.perm (.swap _ _ _))
    (.inside [] _ _ (.perm (.swap _ _ _)))) .brief).2.2.2.2 ?_
  intro name f hf g hg r s hr hs
  rw [hgrammars] at hf hg
  obtain rfl : f = saysHi := by simpa using hf
  obtain rfl : g = saysHi := by simpa using hg
  rw [hr, Option.some_inj] at hs
  exact congrArg Rule.alternatives hs

/-- The file that is listed last decides whether the rule has alternatives. -/
theorem last_file_decides : ¬ ∀ (files others : Files) (dir : String)
    (entries order : List (String × FileTree)), files dir = .ok (.directory entries) →
      others dir = .ok (.directory order) → Relisted entries order →
        (lint files [dir]).exitCode = (lint others [dir]).exitCode := by
  intro hclaim
  have hnothing : treeGrammars "b.json" (written nothingText) = [saysNothing] := by
    have hread : Grammar.ofText .json nothingText = .ok saysNothing := by cbv
    exact treeGrammars_written (by decide) hread
  have hcodes := hclaim (listing [("a.json", written hiText), ("b.json", written nothingText)])
    (listing [("b.json", written nothingText), ("a.json", written hiText)]) "rules" _ _ rfl rfl
    (.perm (.swap _ _ _))
  rw [lint_directory rfl (by decide) .brief, lint_directory rfl (by decide) .brief,
    gatherEntries_eq, gatherEntries_eq] at hcodes
  simp only [grammars, hiText_grammars, hnothing] at hcodes
  exact absurd hcodes (by decide)

end Command

end Announcer
