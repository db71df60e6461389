import Announcer.Proofs.Json.Reading
import Announcer.Proofs.Message.Delivery

/-! # Payloads read back

A payload in writing is an object with a member `content`, once, among members of other names with any
values. Its content is read back whatever is in it and wherever the member stands, so the webhook is
given the text of the message.
-/
namespace Announcer.Webhook.Payload

open Json (Fault ObjectText StringText Takes ValueForm writeMember)
open Spelling (Blank)

inductive Member where
  | content (text : String)
  | other (name : String)

/-- A member in writing. The value of another name may be nested as deep as one likes. -/
inductive MemberText : Member → List Char → Prop where
  | content {text key before after value} : StringText "content" key → Blank before →
      Blank after → StringText text value →
      MemberText (.content text) (key ++ (before ++ ':' :: (after ++ value)))
  | other {name key before after value} {depth : ℕ} : name ≠ "content" → StringText name key →
      Blank before → Blank after → ValueForm depth value →
      MemberText (.other name) (key ++ (before ++ ':' :: (after ++ value)))

/-- The content may be given once. -/
def addMember (found : Option String) : Member → Except Fault (Option String)
  | .content text => if found.isSome then .error .mismatched else .ok (some text)
  | .other _ => .ok found

theorem memberText_begins : Spelling.BeginsQuoted MemberText := by
  rintro _ _ (⟨⟨-⟩, -, -, -⟩ | ⟨-, ⟨-⟩, -, -, -⟩)
  · exact ⟨_, rfl⟩
  · exact ⟨_, rfl⟩

theorem takes_member (steps : ℕ) :
    Takes (fun found => Json.readMember (member steps found)) addMember
      (fun m text => MemberText m text ∧ text.length < steps) := by
  rintro found _ _ rest ⟨hmember, hsteps⟩ hrest
  cases hmember with
  | @content text key before after value hkey hbefore hafter hvalue =>
    simp only [List.append_assoc, List.cons_append, Json.readMember_key _ hkey, member,
      Json.readColon_append hbefore hafter, Json.skipBlank_starts hvalue.starts,
      Json.readText_string hvalue, bind, Except.bind, if_true, addMember]
    cases found <;> rfl
  | @other name key before after value depth hname hkey hbefore hafter hvalue =>
    simp only [List.length_append, List.length_cons] at hsteps
    have hskipped : Json.skipValue steps steps (value ++ rest) = .ok rest :=
      Json.skipValue_value hvalue hrest (by omega) (by omega)
    simp only [List.append_assoc, List.cons_append, Json.readMember_key _ hkey, member,
      Json.readColon_append hbefore hafter, Json.skipBlank_starts hvalue.starts, hskipped, bind,
      Except.bind, if_neg hname, addMember]
    rfl

theorem ofJson_object {members : List Member} {text : String}
    (h : ObjectText MemberText members text) :
    ofJson text = match members.foldlM addMember none with
      | .error fault => .error fault
      | .ok none => .error .mismatched
      | .ok (some content) => .ok ⟨content⟩ := by
  obtain ⟨rest, after, hstart, hend, hread⟩ :=
    Json.readMembers_object takes_member memberText_begins.begins h none
  simp only [ofJson, hstart, hread]
  cases members.foldlM addMember none with
  | error fault => rfl
  | ok found =>
    cases found with
    | none => rfl
    | some content =>
      simp [Except.map, bind, Except.bind, ofContent?, Json.readEnd, hend, pure, Except.pure]

theorem foldlM_others (names : List String) (found : Option String) :
    (names.map Member.other).foldlM addMember found = .ok found := by
  induction names with
  | nil => rfl
  | cons name rest ih => exact ih

theorem foldlM_content (before after : List String) (content : String) :
    (before.map Member.other ++ .content content :: after.map Member.other).foldlM addMember none =
      .ok (some content) := by
  rw [List.foldlM_append, foldlM_others]
  exact foldlM_others after (some content)

theorem memberText_write (content : String) :
    MemberText (.content content) (writeMember "content" content) :=
  @MemberText.content content (Json.quote "content") [] [] (Json.quote content)
    (Json.stringText_quote _) Spelling.blank_nil Spelling.blank_nil (Json.stringText_quote _)

theorem exists_names {texts : List (List Char)}
    (h : ∀ text ∈ texts, ∃ name, MemberText (.other name) text) :
    ∃ names : List String, List.Forall₂ MemberText (names.map Member.other) texts := by
  obtain ⟨names, hnames⟩ := Spelling.exists_forall₂ h
  exact ⟨names, List.forall₂_map_left_iff.mpr hnames.flip⟩

/-- Every text is read back from the payload that is written for it. Members of other names may be
written before and after it, compactly or with blanks, and nothing in the text or in them changes what
is read. What a message posts is read as the text of the message. -/
theorem content_survives (content : String) :
    ofJson (toJson ⟨content⟩) = .ok ⟨content⟩ ∧
    (∀ before after : List (List Char),
      (∀ text ∈ before ++ after, ∃ name, MemberText (.other name) text) →
      ofJson (String.ofList ('{' :: [','].intercalate
        (before ++ writeMember "content" content :: after) ++ ['}'])) = .ok ⟨content⟩) ∧
    (∀ (before after : List String) (text : String),
      ObjectText MemberText (before.map .other ++ .content content :: after.map .other) text →
      ofJson text = .ok ⟨content⟩) ∧
    ∀ (m : Message) (store : Store) (transport : Transport) (now : Instant) (url : String)
      (payload : Payload), m.text = content →
      .post url payload ∈ (m.send store transport now).effects →
      ofJson payload.toJson = .ok ⟨content⟩ := by
  have hobject : ∀ (before after : List String) (text : String),
      ObjectText MemberText (before.map .other ++ .content content :: after.map .other) text →
      ofJson text = .ok ⟨content⟩ := by
    intro before after text h
    rw [ofJson_object h, foldlM_content]
  have hcompact : ∀ before after : List (List Char),
      (∀ text ∈ before ++ after, ∃ name, MemberText (.other name) text) →
      ofJson (String.ofList ('{' :: [','].intercalate
        (before ++ writeMember "content" content :: after) ++ ['}'])) = .ok ⟨content⟩ := by
    intro before after hothers
    obtain ⟨earlier, hearlier⟩ := exists_names fun t ht => hothers t (List.mem_append_left after ht)
    obtain ⟨later, hlater⟩ := exists_names fun t ht => hothers t (List.mem_append_right before ht)
    refine hobject earlier later _ (Json.objectText_compact ?_)
    exact List.rel_append hearlier (.cons (memberText_write content) hlater)
  have halone : ofJson (toJson ⟨content⟩) = .ok ⟨content⟩ := hcompact [] [] (by simp)
  refine ⟨halone, hcompact, hobject, ?_⟩
  rintro m store transport now url payload rfl hpost
  obtain ⟨rfl, -⟩ := Message.attempt_post (a := ⟨store, transport, now⟩) hpost
  exact halone

/-- A member with a number, an object and half of a pair of units in its value. -/
def embeds : List Char := "\"embeds\":[-1.5e3,\x7b\"x\":\"\\ud800\"\x7d]".toList

theorem embeds_written : MemberText (.other "embeds") embeds := by
  have hnumber : ValueForm 1 ['-', '1', '.', '5', 'e', '3'] := by
    have hfraction := @Json.FractionForm.some ['5'] (by simp) (by simp [Json.Digits])
    have hexponent := @Json.ExponentForm.some 'e' [] ['3'] (.inl rfl) (.inl rfl) (by simp)
      (by simp [Json.Digits])
    have hunsigned := Json.UnsignedForm.mk (.digit (c := '1') rfl) hfraction hexponent
    exact .scalar (.negative hunsigned)
  have hhalf : ValueForm 0 ['"', '\\', 'u', 'd', '8', '0', '0', '"'] :=
    .string (.mk (.cons (.unit (.mk (w := 13) (x := 8) (y := 0) (z := 0) rfl rfl rfl rfl rfl)) .nil))
  have hkey : Json.StringForm ['"', 'x', '"'] :=
    .mk (.cons (.plain (by decide) (by decide) (by decide)) .nil)
  have hmember := @Json.MemberForm.mk (ValueForm 0) _ [] [] _ hkey (by decide) (by decide) hhalf
  have hmembers : Spelling.Enclosed '{' '}' (fun _ => Json.MemberForm (ValueForm 0)) [()] _ :=
    Spelling.enclosed_intercalate '{' '}' (.cons hmember .nil)
  have hitems : Spelling.Enclosed '[' ']' (fun _ => ValueForm 1) [(), ()] _ :=
    Spelling.enclosed_intercalate '[' ']' (.cons hnumber (.cons (.object hmembers) .nil))
  have hvalue : ValueForm 2 "[-1.5e3,\x7b\"x\":\"\\ud800\"\x7d]".toList := .list hitems
  exact @MemberText.other _ _ [] [] _ _ (by decide) (Json.stringText_quote "embeds") (by decide)
    (by decide) hvalue

theorem embeds_skipped :
    ofJson "\x7b\"embeds\":[-1.5e3,\x7b\"x\":\"\\ud800\"\x7d],\"content\":\"a\\\"b\"\x7d" =
      .ok ⟨"a\"b"⟩ := by
  refine (content_survives "a\"b").2.1 [embeds] [] fun text htext => ?_
  obtain rfl : text = embeds := by simpa using htext
  exact ⟨_, embeds_written⟩

end Announcer.Webhook.Payload
