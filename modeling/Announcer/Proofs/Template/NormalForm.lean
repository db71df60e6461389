import Announcer.Template.Parser
import Announcer.Proofs.Template.Levels
import Mathlib.Data.List.Forall2
import Mathlib.Data.List.Chain

/-! # Normal form

Literals of a template in normal form are not empty and never meet, tags have something to do,
and pushes have a rule. Whatever the parser accepts is in normal form on every level, so templates
that were read from text need not be checked again.
-/
namespace Announcer

def normalForm (key : String → Prop) (call : ModifierCall → Prop) : Template.Requirement where
  segments segments := (∀ text, .literal text ∈ segments → text ≠ "") ∧
    segments.IsChain fun a b => ¬ (a.isLiteral = true ∧ b.isLiteral = true)
  tag tag := (tag.symbol ≠ "" ∨ (tag.actions ≠ [] ∧ tag.modifiers = [])) ∧
    ∀ m ∈ tag.modifiers, call m
  action a := match a with
    | .push k rules => key k ∧ rules ≠ []
    | .pop k => key k

def IsKey (key : String) : Prop := key ≠ "" ∧ ':' ∉ key.toList

def ModifierCall.IsNamed (call : ModifierCall) : Prop := call.name ≠ "" ∧ '(' ∉ call.name.toList

/-- What every text that can be read is read as. -/
def Template.Normal (t : Template) : Prop := t.Meets (normalForm IsKey ModifierCall.IsNamed)

theorem bind_eq_ok {α β ε : Type} {x : Except ε α} {f : α → Except ε β} {b : β} :
    x >>= f = .ok b ↔ ∃ a, x = .ok a ∧ f a = .ok b := by
  cases x with
  | error e => simp [bind, Except.bind]
  | ok a => simp [bind, Except.bind]

theorem map_eq_ok {α β ε : Type} {f : α → β} {x : Except ε α} {b : β} :
    f <$> x = .ok b ↔ ∃ a, x = .ok a ∧ f a = b := by
  cases x <;> simp [Functor.map, Except.map]

theorem mapM_eq_ok_iff {α β ε : Type} {f : α → Except ε β} {xs : List α} {ys : List β} :
    xs.mapM f = .ok ys ↔ List.Forall₂ (fun x y => f x = .ok y) xs ys := by
  induction xs generalizing ys with
  | nil =>
    rw [List.mapM_nil, List.forall₂_nil_left_iff]
    constructor
    · intro h
      cases h
      rfl
    · rintro rfl
      rfl
  | cons x rest ih =>
    rw [List.mapM_cons, List.forall₂_cons_left_iff, bind_eq_ok]
    constructor
    · rintro ⟨y, hy, h⟩
      obtain ⟨tail, htail, h⟩ := bind_eq_ok.mp h
      cases h
      exact ⟨y, tail, hy, ih.mp htail, rfl⟩
    · rintro ⟨y, tail, hy, htail, rfl⟩
      exact ⟨y, hy, bind_eq_ok.mpr ⟨tail, ih.mpr htail, rfl⟩⟩

theorem mem_of_mapM {α β ε : Type} {f : α → Except ε β} {xs : List α} {ys : List β} {y : β}
    (h : xs.mapM f = .ok ys) (hy : y ∈ ys) : ∃ x ∈ xs, f x = .ok y := by
  have hall := mapM_eq_ok_iff.mp h
  induction hall with
  | nil => simp at hy
  | @cons x z xs ys hxz hall ih =>
    rcases List.mem_cons.mp hy with rfl | hy
    · exact ⟨x, by simp, hxz⟩
    · obtain ⟨w, hw, hwy⟩ := ih (mapM_eq_ok_iff.mpr hall) hy
      exact ⟨w, by simp [hw], hwy⟩

theorem exists_of_mem_mapM {α β ε : Type} {f : α → Except ε β} {xs : List α} {ys : List β} {x : α}
    (h : xs.mapM f = .ok ys) (hx : x ∈ xs) : ∃ y ∈ ys, f x = .ok y := by
  have hall := mapM_eq_ok_iff.mp h
  induction hall with
  | nil => cases hx
  | @cons z y zs ys hzy hall ih =>
    rcases List.mem_cons.mp hx with rfl | hx
    · exact ⟨y, List.mem_cons_self, hzy⟩
    · obtain ⟨w, hw, hxw⟩ := ih (mapM_eq_ok_iff.mpr hall) hx
      exact ⟨w, List.mem_cons_of_mem y hw, hxw⟩

theorem mapM_congr {m : Type → Type} [Monad m] [LawfulMonad m] {α β : Type} {f k : α → m β}
    {xs : List α} (h : ∀ x ∈ xs, f x = k x) : xs.mapM f = xs.mapM k := by
  induction xs with
  | nil => rfl
  | cons x rest ih =>
    rw [List.mapM_cons, List.mapM_cons, h x (by simp), ih fun z hz => h z (by simp [hz])]

theorem mapM_eq_ok_of_map {α β γ ε : Type} {f : β → Except ε γ} {g : α → β} {k : α → γ}
    {xs : List α} (h : ∀ x ∈ xs, f (g x) = .ok (k x)) : (xs.map g).mapM f = .ok (xs.map k) := by
  rw [mapM_eq_ok_iff, List.forall₂_map_left_iff, List.forall₂_map_right_iff]
  exact List.forall₂_same.mpr h

theorem mem_joinAll {segments : List Segment} {s : Segment} (h : s ∈ Segment.joinAll segments)
    (hs : s.isLiteral = false) : s ∈ segments := by
  induction segments with
  | nil => simp [Segment.joinAll] at h
  | cons first rest ih =>
    change s ∈ Segment.join first (Segment.joinAll rest) at h
    have hrest : s ∈ Segment.joinAll rest → s ∈ first :: rest :=
      fun hm => List.mem_cons_of_mem _ (ih hm)
    unfold Segment.join at h
    split at h
    next text next others heq =>
      rcases List.mem_cons.mp h with rfl | hm
      · simp [Segment.isLiteral] at hs
      · exact hrest (heq ▸ List.mem_cons_of_mem _ hm)
    next =>
      rcases List.mem_cons.mp h with rfl | hm
      · exact List.mem_cons_self
      · exact hrest hm

theorem joinAll_normal {key : String → Prop} {call : ModifierCall → Prop}
    {segments : List Segment} (h : ∀ text, .literal text ∈ segments → text ≠ "") :
    (normalForm key call).segments (Segment.joinAll segments) := by
  induction segments with
  | nil => exact ⟨fun text ht => by simp [Segment.joinAll] at ht, .nil⟩
  | cons first rest ih =>
    obtain ⟨hne, hchain⟩ := ih fun text ht => h text (List.mem_cons_of_mem _ ht)
    have hfirst : ∀ text, .literal text = first → text ≠ "" :=
      fun text ht => h text (ht ▸ List.mem_cons_self)
    change (normalForm key call).segments (Segment.join first (Segment.joinAll rest))
    unfold Segment.join
    split
    next text next others heq =>
      rw [heq] at hne hchain
      constructor
      · intro other ho
        rcases List.mem_cons.mp ho with he | hm
        · have hnext := hne next (by simp)
          cases he
          simpa using fun _ => hnext
        · exact hne other (List.mem_cons_of_mem _ hm)
      · cases others with
        | nil => exact List.isChain_singleton _
        | cons second others =>
          rw [List.isChain_cons_cons] at hchain ⊢
          exact ⟨by simpa [Segment.isLiteral] using hchain.1, hchain.2⟩
    next s _ _ hno =>
      constructor
      · intro other ho
        rcases List.mem_cons.mp ho with he | hm
        · exact hfirst other he
        · exact hne other hm
      · cases hjoined : Segment.joinAll rest with
        | nil => exact List.isChain_singleton _
        | cons second others =>
          rw [hjoined] at hchain hno
          rw [List.isChain_cons_cons]
          refine ⟨?_, hchain⟩
          rintro ⟨hs, hsecond⟩
          cases s <;> cases second <;> simp [Segment.isLiteral] at hs hsecond
          exact hno _ _ _ rfl rfl

theorem splitAtFirst?_eq_some {c : Char} {text before after : List Char}
    (h : Scan.splitAtFirst? c text = some (before, after)) :
    c ∉ before ∧ text = before ++ c :: after := by
  induction text generalizing before with
  | nil => simp [Scan.splitAtFirst?] at h
  | cons head rest ih =>
    simp only [Scan.splitAtFirst?] at h
    split at h
    next heq =>
      cases h
      simp [heq]
    next hne =>
      obtain ⟨found, hfound, he⟩ := Option.map_eq_some_iff.mp h
      cases he
      obtain ⟨hno, htext⟩ := ih hfound
      exact ⟨by simp [hno, Ne.symm hne], by simp [htext]⟩

theorem splitFrom_ne_nil (separator : Char) (depth : Int) (inTag : Bool) (text : List Char) :
    Scan.splitFrom separator depth inTag text ≠ [] := by
  unfold Scan.splitFrom
  split
  · simp
  · simp
  · exact Scan.consToHead_ne_nil _ _
  · split_ifs <;> first | exact Scan.consToHead_ne_nil _ _ | simp

theorem splitAtFirst?_eq_none {c : Char} {text : List Char}
    (h : Scan.splitAtFirst? c text = none) : c ∉ text := by
  induction text with
  | nil => simp
  | cons head rest ih =>
    simp only [Scan.splitAtFirst?] at h
    split at h
    next => cases h
    next hne => simpa [Ne.symm hne] using ih (Option.map_eq_none_iff.mp h)

theorem ModifierCall.parse_isNamed {text : List Char} {call : ModifierCall}
    (h : ModifierCall.parse text = .ok call) : call.IsNamed := by
  -- The name is what stands before the first parenthesis, and it was tested not to be empty.
  have named : ∀ (name : List Char) (params : List (List Char)), '(' ∉ name →
      (if name.isEmpty then throw .emptyModifierName
        else pure ⟨String.ofList name, params.map String.ofList⟩ : Except ParseError ModifierCall) =
        .ok call → call.IsNamed := by
    intro name params hno hcall
    split at hcall
    next => cases hcall
    next hne =>
      cases hcall
      exact ⟨by simpa [List.isEmpty_iff] using hne, by simpa using hno⟩
  unfold ModifierCall.parse at h
  dsimp only at h
  split at h
  next hsplit => exact named text [] (splitAtFirst?_eq_none hsplit) h
  next name inner hsplit =>
    split at h
    next => exact named name _ (splitAtFirst?_eq_some hsplit).1 h
    next => cases h

variable {rule : List Char → Except ParseError Template}

theorem Action.parseWith_normal {content : List Char} {a : Action}
    (h : Action.parseWith rule content = .ok a) :
    (normalForm IsKey ModifierCall.IsNamed).action a ∧
      ∀ r ∈ a.rules, ∃ text, rule text = .ok r := by
  unfold Action.parseWith at h
  split at h
  next => cases h
  next key value hsplit =>
    have hkey : key ≠ [] → IsKey (String.ofList key) := fun hne =>
      ⟨by simpa using hne, by simpa using (splitAtFirst?_eq_some hsplit).1⟩
    dsimp only at h
    split at h
    next => cases h
    next hne =>
      have hkey := hkey (by simpa [List.isEmpty_iff] using hne)
      split at h
      next =>
        cases h
        exact ⟨hkey, by simp [Action.rules]⟩
      next =>
        obtain ⟨rules, hrules, h⟩ := bind_eq_ok.mp h
        cases h
        refine ⟨⟨hkey, ?_⟩, fun r hr => ?_⟩
        · intro hnil
          have hlength := (mapM_eq_ok_iff.mp hrules).length_eq
          rw [hnil, List.length_nil, List.length_eq_zero_iff] at hlength
          exact splitFrom_ne_nil ',' 0 false value hlength
        · obtain ⟨text, -, htext⟩ := mem_of_mapM hrules hr
          exact ⟨text, htext⟩

theorem Tag.parseBody_normal {content body : List Char} {actions : List Action} {tag : Tag}
    (h : Tag.parseBody content actions body = .ok tag) :
    tag.actions = actions ∧ (normalForm IsKey ModifierCall.IsNamed).tag tag := by
  unfold Tag.parseBody at h
  dsimp only at h
  split at h
  next => cases h
  next =>
    split at h
    next =>
      split at h
      next => cases h
      next hne =>
        cases h
        exact ⟨rfl, .inr ⟨by simpa [List.isEmpty_iff] using hne, rfl⟩, by simp⟩
    next =>
      split at h
      next => cases h
      next hne =>
        obtain ⟨modifiers, hmodifiers, h⟩ := bind_eq_ok.mp h
        cases h
        refine ⟨rfl, .inl (by simpa [List.isEmpty_iff] using hne), fun call hcall => ?_⟩
        obtain ⟨text, -, htext⟩ := mem_of_mapM hmodifiers hcall
        exact ModifierCall.parse_isNamed htext

theorem Tag.parseWith_normal {content : List Char} {tag : Tag}
    (h : Tag.parseWith rule content = .ok tag) :
    (normalForm IsKey ModifierCall.IsNamed).tag tag ∧
      ∀ a ∈ tag.actions, ∃ text, Action.parseWith rule text = .ok a := by
  unfold Tag.parseWith at h
  split at h
  next => cases h
  next contents body hleading =>
    obtain ⟨actions, hactions, h⟩ := bind_eq_ok.mp h
    obtain ⟨rfl, htag⟩ := Tag.parseBody_normal h
    refine ⟨htag, fun a ha => ?_⟩
    obtain ⟨text, -, htext⟩ := mem_of_mapM hactions ha
    exact ⟨text, htext⟩

theorem Segment.ofToken_normal {token : Scan.Token} {s : Segment}
    (h : Segment.ofToken rule token = .ok s) :
    (∀ text, s = .literal text → text ≠ "") ∧
      (∀ tag, s = .tag tag → (normalForm IsKey ModifierCall.IsNamed).tag tag) ∧
      ∀ a ∈ s.actions, ∃ text, Action.parseWith rule text = .ok a := by
  cases token with
  | char c =>
    cases h
    refine ⟨fun text ht => ?_, fun tag ht => (by cases ht), by simp [Segment.actions]⟩
    cases ht
    simp
  | tag content =>
    obtain ⟨tag, htag, rfl⟩ := map_eq_ok.mp h
    have hnormal := Tag.parseWith_normal htag
    exact ⟨fun text ht => (by cases ht), fun t ht => (by cases ht; exact hnormal.1), hnormal.2⟩
  | action content =>
    obtain ⟨a, ha, rfl⟩ := map_eq_ok.mp h
    refine ⟨fun text ht => (by cases ht), fun t ht => (by cases ht), fun b hb => ?_⟩
    obtain rfl : b = a := by simpa [Segment.actions] using hb
    exact ⟨content, ha⟩
  | unclosedBracket => cases h

namespace Template

theorem parseWith_normal {text : List Char} {t : Template} (h : parseWith rule text = .ok t)
    (hrule : ∀ text r, rule text = .ok r → r.Normal) : t.Normal := by
  obtain ⟨segments, hsegments, h⟩ := bind_eq_ok.mp h
  cases h
  have hread : ∀ s ∈ segments, _ := fun s hs =>
    let ⟨_, _, hs⟩ := mem_of_mapM hsegments hs
    Segment.ofToken_normal hs
  have hjoined : ∀ s ∈ Segment.joinAll segments, s.isLiteral = false → s ∈ segments :=
    fun s hs hl => mem_joinAll hs hl
  have haction : ∀ a ∈ (Template.mk (Segment.joinAll segments)).actions,
      ∃ text, Action.parseWith rule text = .ok a := by
    intro a ha
    rcases mem_actions.mp ha with hs | ⟨tag, hs, hmem⟩
    · exact (hread _ (hjoined _ hs rfl)).2.2 a (by simp [Segment.actions])
    · exact (hread _ (hjoined _ hs rfl)).2.2 a hmem
  refine .level ?_ ?_ ?_ ?_
  · exact joinAll_normal fun other ho => (hread _ ho).1 other rfl
  · intro tag htag
    exact (hread _ (hjoined _ htag rfl)).2.1 tag rfl
  · intro a ha
    obtain ⟨content, hcontent⟩ := haction a ha
    exact (Action.parseWith_normal hcontent).1
  · intro r hr
    obtain ⟨a, ha, hmem⟩ := List.mem_flatMap.mp hr
    obtain ⟨content, hcontent⟩ := haction a ha
    obtain ⟨inner, hinner⟩ := (Action.parseWith_normal hcontent).2 r hmem
    exact hrule inner r hinner

theorem parseLevels_normal {levels : ℕ} {text : List Char} {t : Template}
    (h : parseLevels levels text = .ok t) : t.Normal := by
  induction levels generalizing text t with
  | zero => cases h
  | succ levels ih => exact parseWith_normal h fun _ _ hr => ih hr

theorem parse_normal {text : String} {t : Template} (h : parse text = .ok t) : t.Normal :=
  parseLevels_normal h

end Template

end Announcer
