import Announcer.Proofs.Json.Reading
import Announcer.Proofs.Loading.Agreement
import Announcer.Webhook.Directory

/-! # Directories made in three ways

Names and addresses in a list make the same directory whether they are collected, inserted one by one
or read from the JSON object that they are the members of. The last address of a name counts. What is
written for a directory is read as that directory, in whatever order its entries are written.
-/
namespace Announcer.Webhook.Directory

open Json (ObjectText StringText Takes TextMember)

variable {pairs : List (String × String)}

/-- What is found in a directory: the last address of each name, and nothing else. -/
structure HoldsLast (d : Directory) (pairs : List (String × String)) : Prop where
  found : ∀ name url, d.get? name = some url ↔ ∃ before after,
    pairs = before ++ (name, url) :: after ∧ name ∉ after.map Prod.fst
  missing : ∀ name, d.get? name = none ↔ name ∉ pairs.map Prod.fst
  store : ∀ name, d.store name = .ok (d.get? name)
  size : d.size = (pairs.map Prod.fst).toFinset.card

theorem get?_ofList_eq_some_iff_last {name url : String} :
    (Table.ofList pairs).get? name = some url ↔ ∃ before after,
      pairs = before ++ (name, url) :: after ∧ name ∉ after.map Prod.fst := by
  have hnames : ∀ after : List (String × String), name ∉ after.map Prod.fst ↔
      ∀ e ∈ after, (name != e.1) = true := by
    intro after
    simp only [List.mem_map, not_exists, not_and, bne_iff_ne, ne_comm]
  rw [Table.get?_ofList, List.lookup_eq_some_iff]
  constructor
  · rintro ⟨later, earlier, hpairs, hlater⟩
    refine ⟨earlier.reverse, later.reverse, ?_, ?_⟩
    · rw [← List.reverse_reverse pairs, hpairs]
      simp
    · exact (hnames _).mpr fun e he => hlater e (List.mem_reverse.mp he)
  · rintro ⟨before, after, rfl, hafter⟩
    refine ⟨after.reverse, before.reverse, by simp, fun e he => ?_⟩
    exact (hnames _).mp hafter e (List.mem_reverse.mp he)

theorem get?_ofList_eq_none_iff {name : String} :
    (Table.ofList pairs).get? name = none ↔ name ∉ pairs.map Prod.fst := by
  simp only [Table.get?_ofList, List.lookup_eq_none_iff, List.mem_reverse, List.mem_map, not_exists,
    not_and, bne_iff_ne, ne_comm]

theorem holdsLast_ofList (pairs : List (String × String)) : HoldsLast (.ofList pairs) pairs where
  found _ _ := get?_ofList_eq_some_iff_last
  missing _ := get?_ofList_eq_none_iff
  store _ := rfl
  size := by
    rw [Table.size_eq_ncard, ← Set.ncard_coe_finset]
    congr 1
    ext name
    rw [Set.mem_ofPred_eq, Finset.mem_coe, List.mem_toFinset, ← not_iff_not,
      ← get?_ofList_eq_none_iff, ← Option.ne_none_iff_exists', not_not]

theorem takes_entry (steps : ℕ) :
    Takes (fun d => Json.readMember (jsonEntry d)) (fun d e => .ok (d.insert e.1 e.2))
      (fun e text => TextMember e text ∧ text.length < steps) := by
  rintro d _ _ rest ⟨@⟨name, url, _, before, after, text, hname, hbefore, hafter, hurl⟩, -⟩ -
  simp only [List.append_assoc, List.cons_append, Json.readMember_key _ hname, jsonEntry,
    Json.readColon_append hbefore hafter, Json.skipBlank_starts hurl.starts,
    Json.readText_string hurl, bind, Except.bind]
  rfl

theorem textMember_begins : Spelling.BeginsQuoted TextMember := by
  rintro _ _ ⟨⟨-⟩, -, -, -⟩
  exact ⟨_, rfl⟩

theorem ofJson_object {text : String} (h : ObjectText TextMember pairs text) :
    ofJson text = .ok (.ofList pairs) := by
  rw [ofJson, Json.readObject_members takes_entry textMember_begins.begins h]
  exact congrArg (Except.mapError StoreError.json) List.foldlM_pure

theorem ofList_entries (d : Directory) {listing : List (String × String)}
    (horder : listing.Perm d.entries) : Table.ofList listing = d := by
  have hnames : (d.entries.map Prod.fst).Nodup := d.names_nodup
  rw [Table.ofList_perm hnames horder]
  refine Table.ext_get? fun name => Option.ext fun url => ?_
  rw [Table.get?_ofList_eq_some_iff hnames, Table.get?_eq_some_iff]

/-- However names and addresses are made into a directory, it holds the last address of each name, and
a directory is read back from its JSON text. -/
theorem directories_agree (pairs : List (String × String)) :
    HoldsLast (.ofList pairs) pairs ∧
    pairs.foldl (fun d e => d.insert e.1 e.2) .empty = (.ofList pairs : Directory) ∧
    ofJson (Json.writeObject pairs) = .ok (.ofList pairs) ∧
    (∀ text, ObjectText TextMember pairs text → ofJson text = .ok (.ofList pairs)) ∧
    ∀ d : Directory, ofJson d.toJson = .ok d ∧
      ∀ listing, listing.Perm d.entries → ofJson (Json.writeObject listing) = .ok d := by
  have hlisting : ∀ (d : Directory) (listing : List (String × String)), listing.Perm d.entries →
      ofJson (Json.writeObject listing) = .ok d := by
    intro d listing horder
    rw [ofJson_object (Json.objectText_writeObject listing), ofList_entries d horder]
  exact ⟨holdsLast_ofList pairs, rfl, ofJson_object (Json.objectText_writeObject pairs),
    fun _ => ofJson_object, fun d => ⟨hlisting d _ (.refl _), hlisting d⟩⟩

def renamed : List (String × String) := [("a", "x"), ("a", "/")]

def renamedText : String := "\x7b\"\\u0061\": \"x\",\"a\":\"\\/\"\x7d"

theorem renamed_written : ObjectText TextMember renamed renamedText := by
  have hstring : ∀ {cs text}, Json.CharsText cs text →
      StringText (String.ofList cs) ('"' :: (text ++ ['"'])) :=
    fun h => .mk (by rwa [String.toList_ofList])
  have hescaped : Json.CharText 'a' ['\\', 'u', '0', '0', '6', '1'] :=
    .unit (.mk (w := 0) (x := 0) (y := 6) (z := 1) rfl rfl rfl rfl rfl)
  have hplain : Json.CharText 'a' ['a'] := .plain (by decide) (by decide) (by decide)
  have hletter : Json.CharText 'x' ['x'] := .plain (by decide) (by decide) (by decide)
  have hslash : Json.CharText '/' ['\\', '/'] := .short rfl
  have hfirst : TextMember ("a", "x") "\"\\u0061\": \"x\"".toList :=
    @TextMember.mk _ _ _ [] [' '] _ (hstring (.cons hescaped .nil)) (by decide) (by decide)
      (hstring (.cons hletter .nil))
  have hsecond : TextMember ("a", "/") "\"a\":\"\\/\"".toList :=
    @TextMember.mk _ _ _ [] [] _ (hstring (.cons hplain .nil)) (by decide) (by decide)
      (hstring (.cons hslash .nil))
  exact Json.objectText_compact (.cons hfirst (.cons hsecond .nil))

theorem renamed_read : ofJson renamedText = .ok (.ofList renamed) ∧
    (Table.ofList renamed).get? "a" = some "/" ∧ (Table.ofList renamed).size = 1 := by
  obtain ⟨hholds, -, -, hread, -⟩ := directories_agree renamed
  have hlast : (Table.ofList renamed).get? "a" = some "/" :=
    (hholds.found _ _).mpr ⟨[("a", "x")], [], rfl, by simp⟩
  refine ⟨hread renamedText renamed_written, hlast, ?_⟩
  rw [hholds.size]
  decide

end Announcer.Webhook.Directory
