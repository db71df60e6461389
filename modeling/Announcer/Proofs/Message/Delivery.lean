import Announcer.Message.Draft
import Announcer.Proofs.Chance.Script
import Mathlib

/-! # Delivery over a run of sendings

A message is built once and may then be sent any number of times. Every call meets a store and a
transport of its own, so a directory may be edited, replaced or lost between two calls, and any
post may be answered or fail. No order of successes and failures is assumed.
-/
namespace Announcer.Message

open Chance (ChoiceSource Generator Script)
open Webhook (Payload Store StoreError)

/-- Messages come from an origin that is expanded at once, or from a draft. -/
inductive Built : Message → Prop where
  | composed {σ : Type} [ChoiceSource σ] {target origin grammar scheduledTime m} {source rest : σ} :
      compose target origin grammar scheduledTime source = (.ok m, rest) → Built m
  | drafted {d : Draft} {now : Instant} {entropy : Generator} {m} :
      d.build now entropy = .ok m → Built m

/-- What one call meets. Nothing ties the store or the transport of one call to the next. -/
structure Attempt where
  store : Store
  transport : Transport
  time : Instant

def attempt (m : Message) (a : Attempt) : Sending := m.send a.store a.transport a.time

/-- The ways in which a call can end, with everything that it does. -/
inductive Outcome (m : Message) (a : Attempt) : Sending → Prop where
  | rejected : m.isSent = true → Outcome m a ⟨.error .alreadySent, m, []⟩
  | unreadable {cause} : m.isSent = false → a.store m.target = .error cause →
      Outcome m a ⟨.error (.webhook cause), m, [.lookup m.target]⟩
  | unknown : m.isSent = false → a.store m.target = .ok none →
      Outcome m a ⟨.error (.unknownTarget m.target), m, [.lookup m.target]⟩
  | failed {url cause} : m.isSent = false → a.store m.target = .ok (some url) →
      a.transport url m.payload = .error cause →
      Outcome m a ⟨.error (.transport cause), m, [.lookup m.target, .post url m.payload]⟩
  | delivered {url response} : m.isSent = false → a.store m.target = .ok (some url) →
      a.transport url m.payload = .ok response →
      Outcome m a ⟨.ok ⟨m.target, url, response.status, response.body, a.time⟩,
        { m with state := .sent a.time response.status },
        [.lookup m.target, .post url m.payload]⟩

theorem attempt_outcome (m : Message) (a : Attempt) : Outcome m a (m.attempt a) := by
  unfold attempt send
  split
  next hsent => exact .rejected hsent
  next hsent =>
    have hunsent : m.isSent = false := by simpa using hsent
    split
    next cause hlookup => exact .unreadable hunsent hlookup
    next hlookup => exact .unknown hunsent hlookup
    next url hlookup =>
      dsimp only
      split
      next cause hpost => exact .failed hunsent hlookup hpost
      next response hpost => exact .delivered hunsent hlookup hpost

theorem isSent_eq_false_iff {m : Message} : m.isSent = false ↔ m.state = .unsent := by
  unfold isSent
  cases m.state <;> simp

def after (m : Message) : List Attempt → Message
  | [] => m
  | a :: rest => (m.attempt a).message.after rest

structure Call where
  attempt : Attempt
  sending : Sending

/-- The calls of a run in order, each made on the message that the one before it left. -/
def history (m : Message) : List Attempt → List Call
  | [] => []
  | a :: rest => ⟨a, m.attempt a⟩ :: (m.attempt a).message.history rest

def Effect.post? : Effect → Option (String × Payload)
  | .lookup _ => none
  | .post url payload => some (url, payload)

def Call.posts (c : Call) : List (String × Payload) := c.sending.effects.filterMap Effect.post?

def Call.Succeeds (c : Call) (r : Receipt) : Prop := c.sending.result = .ok r

def Call.failedPost (c : Call) : Bool :=
  match c.sending.result with
  | .error (.transport _) => true
  | _ => false

theorem after_append (m : Message) (xs ys : List Attempt) :
    m.after (xs ++ ys) = (m.after xs).after ys := by
  induction xs generalizing m with
  | nil => rfl
  | cons a rest ih => exact ih _

theorem after_take_succ {m : Message} {attempts : List Attempt} {i : ℕ} {a : Attempt}
    (ha : attempts[i]? = some a) :
    m.after (attempts.take (i + 1)) = ((m.after (attempts.take i)).attempt a).message := by
  rw [List.take_add_one, ha, after_append]
  rfl

theorem history_getElem? {m : Message} {attempts : List Attempt} {i : ℕ} {c : Call}
    (hc : (m.history attempts)[i]? = some c) :
    ∃ a, attempts[i]? = some a ∧ c = ⟨a, (m.after (attempts.take i)).attempt a⟩ := by
  induction attempts generalizing m i with
  | nil => simp [history] at hc
  | cons a rest ih =>
    cases i with
    | zero =>
      simp only [history, List.getElem?_cons_zero, Option.some.injEq] at hc
      exact ⟨a, rfl, hc.symm⟩
    | succ i =>
      obtain ⟨b, hb, he⟩ := ih (by simpa [history] using hc)
      exact ⟨b, by simpa using hb, he⟩

theorem attempt_frame (m : Message) (a : Attempt) :
    (m.attempt a).message = { m with state := (m.attempt a).message.state } := by
  have hout := attempt_outcome m a
  generalize m.attempt a = sending at hout ⊢
  cases hout <;> rfl

theorem after_frame (m : Message) (attempts : List Attempt) :
    m.after attempts = { m with state := (m.after attempts).state } := by
  induction attempts generalizing m with
  | nil => rfl
  | cons a rest ih =>
    have hfirst := attempt_frame m a
    have hrest := ih (m.attempt a).message
    rw [hfirst] at hrest
    simpa only [after, ← hfirst] using hrest

theorem attempt_of_sent {m : Message} (hm : m.isSent = true) (a : Attempt) :
    m.attempt a = ⟨.error .alreadySent, m, []⟩ := by
  simp [attempt, send, hm]

theorem after_of_sent {m : Message} (hm : m.isSent = true) (attempts : List Attempt) :
    m.after attempts = m := by
  induction attempts with
  | nil => rfl
  | cons a rest ih => simpa only [after, attempt_of_sent hm a] using ih

theorem history_of_sent {m : Message} (hm : m.isSent = true) {attempts : List Attempt} {c : Call}
    (hc : c ∈ m.history attempts) : c.sending = ⟨.error .alreadySent, m, []⟩ := by
  induction attempts with
  | nil => simp [history] at hc
  | cons a rest ih =>
    simp only [history, attempt_of_sent hm a, List.mem_cons] at hc
    rcases hc with rfl | hc
    · rfl
    · exact ih hc

theorem attempt_succeeds {m : Message} {a : Attempt} {r : Receipt}
    (h : (m.attempt a).result = .ok r) :
    m.isSent = false ∧ (m.attempt a).message.state = .sent r.time r.status ∧ r.time = a.time ∧
      r.target = m.target ∧ a.store m.target = .ok (some r.url) ∧
      ∃ response, a.transport r.url m.payload = .ok response ∧
        r.status = response.status ∧ r.body = response.body := by
  have hout := attempt_outcome m a
  generalize m.attempt a = sending at hout h ⊢
  cases hout with
  | rejected => cases h
  | unreadable => cases h
  | unknown => cases h
  | failed => cases h
  | @delivered url response hunsent hlookup hpost =>
    cases h
    exact ⟨hunsent, rfl, rfl, rfl, hlookup, response, hpost, rfl, rfl⟩

theorem attempt_fails {m : Message} {a : Attempt} {cause : MessageError}
    (h : (m.attempt a).result = .error cause) : (m.attempt a).message = m := by
  have hout := attempt_outcome m a
  generalize m.attempt a = sending at hout h ⊢
  cases hout with
  | rejected => rfl
  | unreadable => rfl
  | unknown => rfl
  | failed => rfl
  | delivered => cases h

theorem attempt_post {m : Message} {a : Attempt} {url : String} {payload : Payload}
    (h : .post url payload ∈ (m.attempt a).effects) :
    payload = m.payload ∧ a.store m.target = .ok (some url) := by
  have hout := attempt_outcome m a
  generalize m.attempt a = sending at hout h
  cases hout with
  | rejected => simp at h
  | unreadable => simp at h
  | unknown => simp at h
  | failed _ hlookup =>
    obtain ⟨rfl, rfl⟩ : url = _ ∧ payload = _ := by simpa using h
    exact ⟨rfl, hlookup⟩
  | delivered _ hlookup =>
    obtain ⟨rfl, rfl⟩ : url = _ ∧ payload = _ := by simpa using h
    exact ⟨rfl, hlookup⟩

theorem failedPost_iff {m : Message} {a : Attempt} :
    Call.failedPost ⟨a, m.attempt a⟩ = true ↔
      ∃ url payload cause, .post url payload ∈ (m.attempt a).effects ∧
        a.transport url payload = .error cause := by
  have hout := attempt_outcome m a
  generalize m.attempt a = sending at hout
  cases hout with
  | rejected => simp [Call.failedPost]
  | unreadable => simp [Call.failedPost]
  | unknown => simp [Call.failedPost]
  | failed _ _ hpost => simp [Call.failedPost, hpost]
  | delivered _ _ hpost => simp [Call.failedPost, hpost]

theorem after_stable {m : Message} {attempts : List Attempt} {i j : ℕ} (hij : i ≤ j)
    (hi : (m.after (attempts.take i)).isSent = true) :
    m.after (attempts.take j) = m.after (attempts.take i) := by
  obtain ⟨d, rfl⟩ := Nat.exists_eq_add_of_le hij
  rw [List.take_add, after_append]
  exact after_of_sent hi _

theorem after_state_of_success {m : Message} {attempts : List Attempt} {i k : ℕ} {c : Call}
    {r : Receipt} (hc : (m.history attempts)[i]? = some c) (hr : c.Succeeds r) (hik : i < k) :
    (m.after (attempts.take k)).state = .sent r.time r.status := by
  obtain ⟨a, ha, rfl⟩ := history_getElem? hc
  have hstate := (attempt_succeeds hr).2.1
  rw [← after_take_succ ha] at hstate
  rw [after_stable hik (by simp [isSent, hstate])]
  exact hstate

theorem rejected_after_success {m : Message} {attempts : List Attempt} {i j : ℕ} {c d : Call}
    {r : Receipt} (hc : (m.history attempts)[i]? = some c) (hr : c.Succeeds r) (hij : i < j)
    (hd : (m.history attempts)[j]? = some d) :
    d.sending.result = .error .alreadySent ∧ d.sending.effects = [] := by
  obtain ⟨b, -, rfl⟩ := history_getElem? hd
  have hsent : (m.after (attempts.take j)).isSent = true := by
    simp [isSent, after_state_of_success hc hr hij]
  rw [attempt_of_sent hsent]
  exact ⟨rfl, rfl⟩

theorem success_unique {m : Message} {attempts : List Attempt} {i j : ℕ} {c d : Call}
    {r t : Receipt} (hc : (m.history attempts)[i]? = some c) (hr : c.Succeeds r)
    (hd : (m.history attempts)[j]? = some d) (ht : d.Succeeds t) : i = j := by
  rcases Nat.lt_trichotomy i j with hlt | heq | hgt
  · have hno := (rejected_after_success hc hr hlt hd).1
    rw [ht] at hno
    cases hno
  · exact heq
  · have hno := (rejected_after_success hd ht hgt hc).1
    rw [hr] at hno
    cases hno

theorem after_unsent {m : Message} (hm : m.state = .unsent) {attempts : List Attempt} {k : ℕ}
    (hk : ∀ i c r, i < k → (m.history attempts)[i]? = some c → ¬ c.Succeeds r) :
    (m.after (attempts.take k)).state = .unsent := by
  induction attempts generalizing m k with
  | nil => simpa [after] using hm
  | cons a rest ih =>
    cases k with
    | zero => exact hm
    | succ k =>
      have hleft : (m.attempt a).message = m := by
        cases hres : (m.attempt a).result with
        | error cause => exact attempt_fails hres
        | ok r => exact absurd hres (hk 0 ⟨a, m.attempt a⟩ r (by omega) rfl)
      have hrest := ih (m := (m.attempt a).message) (k := k) (by rw [hleft]; exact hm)
        (fun i c r hi hc => hk (i + 1) c r (by omega) (by simpa [history] using hc))
      exact hrest

theorem sent_posts {m : Message} (hm : m.isSent = true) (attempts : List Attempt) :
    (m.history attempts).flatMap Call.posts = [] ∧
      (m.history attempts).countP Call.failedPost = 0 := by
  constructor
  · apply List.flatMap_eq_nil_iff.mpr
    intro c hc
    simp [Call.posts, history_of_sent hm hc]
  · apply List.countP_eq_zero.mpr
    intro c hc
    simp [Call.failedPost, history_of_sent hm hc]

theorem attempt_posts_length {m : Message} (hm : m.isSent = false) (a : Attempt) :
    (Call.posts ⟨a, m.attempt a⟩).length =
      (Call.failedPost ⟨a, m.attempt a⟩).toNat + (m.attempt a).message.isSent.toNat := by
  have hout := attempt_outcome m a
  generalize m.attempt a = sending at hout ⊢
  cases hout with
  | rejected hsent => simp [hm] at hsent
  | unreadable => simp [Call.posts, Call.failedPost, Effect.post?, hm]
  | unknown => simp [Call.posts, Call.failedPost, Effect.post?, hm]
  | failed => simp [Call.posts, Call.failedPost, List.filterMap_cons, Effect.post?, hm]
  | delivered => simp [Call.posts, Call.failedPost, List.filterMap_cons, Effect.post?, isSent]

/-- Every post of a run has failed or was the one that completed the message. -/
theorem posts_length {m : Message} (hm : m.isSent = false) (attempts : List Attempt) :
    ((m.history attempts).flatMap Call.posts).length =
      (m.history attempts).countP Call.failedPost + (m.after attempts).isSent.toNat := by
  induction attempts generalizing m with
  | nil => simp [history, after, hm]
  | cons a rest ih =>
    have hfirst := attempt_posts_length hm a
    rw [history, after, List.flatMap_cons, List.length_append, List.countP_cons, hfirst]
    cases hsent : (m.attempt a).message.isSent with
    | true =>
      obtain ⟨hposts, hfailed⟩ := sent_posts hsent rest
      rw [hposts, hfailed, after_of_sent hsent, hsent]
      cases Call.failedPost ⟨a, m.attempt a⟩ <;> rfl
    | false =>
      rw [ih hsent]
      simp only [Bool.toNat_false]
      cases Call.failedPost ⟨a, m.attempt a⟩ with
      | true => simp only [Bool.toNat_true, if_true]; omega
      | false => simp

theorem compose_eq_ok {σ : Type} [ChoiceSource σ] {target origin : String} {grammar : Grammar}
    {scheduledTime : Instant} {source rest : σ} {m : Message}
    (h : compose target origin grammar scheduledTime source = (.ok m, rest)) :
    ∃ text, grammar.flatten origin source = (.ok text, rest) ∧
      m = ⟨target, grammar, text, scheduledTime, .unsent⟩ := by
  unfold compose at h
  split at h
  · cases h
  · split at h
    next => cases h
    next text left hflatten =>
      cases h
      exact ⟨text, hflatten, rfl⟩

theorem build_eq_ok {d : Draft} {now : Instant} {entropy : Generator} {m : Message}
    (h : d.build now entropy = .ok m) :
    ∃ grammar, d.chosenGrammar = .ok grammar ∧
      (compose d.target d.origin grammar (d.scheduledTime.getD now)
        (d.seed.elim entropy Generator.ofSeed)).1 = .ok m := by
  cases hg : d.chosenGrammar with
  | error cause =>
    rw [Draft.build, hg] at h
    cases h
  | ok grammar =>
    refine ⟨grammar, rfl, ?_⟩
    rw [Draft.build, hg] at h
    cases hseed : d.seed <;> rw [hseed] at h <;> exact h

/-- Whichever construction a message comes from, its text is the expansion of the origin given there,
by the grammar and from the source given there. -/
structure Constructed (m : Message) : Prop where
  composed : ∀ {σ : Type} [ChoiceSource σ] {target origin grammar scheduledTime} {source rest : σ},
    compose target origin grammar scheduledTime source = (.ok m, rest) →
      grammar.flatten origin source = (.ok m.text, rest) ∧
        m = ⟨target, grammar, m.text, scheduledTime, .unsent⟩
  drafted : ∀ {d : Draft} {now : Instant} {entropy : Generator}, d.build now entropy = .ok m →
    ∃ grammar, d.chosenGrammar = .ok grammar ∧
      (grammar.flatten d.origin (d.seed.elim entropy Generator.ofSeed)).1 = .ok m.text ∧
        m = ⟨d.target, grammar, m.text, d.scheduledTime.getD now, .unsent⟩

theorem constructed (m : Message) : Constructed m := by
  constructor
  case composed =>
    intro σ _ target origin grammar scheduledTime source rest h
    obtain ⟨text, hflatten, rfl⟩ := compose_eq_ok h
    exact ⟨hflatten, rfl⟩
  case drafted =>
    intro d now entropy h
    obtain ⟨grammar, hgrammar, hcompose⟩ := build_eq_ok h
    obtain ⟨text, hflatten, rfl⟩ := compose_eq_ok (Prod.ext hcompose rfl)
    exact ⟨grammar, hgrammar, congrArg Prod.fst hflatten, rfl⟩

theorem Built.unsent {m : Message} (hm : Built m) : m.state = .unsent := by
  cases hm with
  | composed h =>
    rw [((constructed m).composed h).2]
  | drafted h =>
    obtain ⟨grammar, -, -, hm⟩ := (constructed m).drafted h
    rw [hm]

/-- What holds of a message over every run of calls. -/
structure AtMostOnce (m : Message) (attempts : List Attempt) : Prop where
  one_call : (m.history attempts).map Call.attempt = attempts
  one_success : ∀ (i j : ℕ) (c d : Call) (r t : Receipt),
    (m.history attempts)[i]? = some c → c.Succeeds r →
    (m.history attempts)[j]? = some d → d.Succeeds t → i = j
  rejected : ∀ (i j : ℕ) (c d : Call) (r : Receipt),
    (m.history attempts)[i]? = some c → c.Succeeds r → i < j →
    (m.history attempts)[j]? = some d →
    d.sending.result = .error .alreadySent ∧ d.sending.effects = []
  post : ∀ c ∈ m.history attempts, ∀ url payload, .post url payload ∈ c.sending.effects →
    payload.content = m.text ∧ c.attempt.store m.target = .ok (some url)
  failure : ∀ c ∈ m.history attempts, c.failedPost = true ↔ ∃ url payload cause,
    .post url payload ∈ c.sending.effects ∧ c.attempt.transport url payload = .error cause
  posts : ((m.history attempts).flatMap Call.posts).length =
    (m.history attempts).countP Call.failedPost + if (m.after attempts).isSent then 1 else 0
  response : ∀ c ∈ m.history attempts, ∀ r, c.Succeeds r →
    r.time = c.attempt.time ∧ ∃ response, c.attempt.transport r.url ⟨m.text⟩ = .ok response ∧
      r.status = response.status
  unsent : ∀ k, (∀ (i : ℕ) (c : Call) (r : Receipt), i < k →
      (m.history attempts)[i]? = some c → ¬ c.Succeeds r) →
    (m.after (attempts.take k)).state = .unsent
  sent : ∀ (i k : ℕ) (c : Call) (r : Receipt),
    (m.history attempts)[i]? = some c → c.Succeeds r → i < k →
    (m.after (attempts.take k)).state = .sent r.time r.status
  frame : ∀ k, (m.after (attempts.take k)).text = m.text ∧
    (m.after (attempts.take k)).target = m.target ∧
    (m.after (attempts.take k)).grammar = m.grammar ∧
    (m.after (attempts.take k)).scheduledTime = m.scheduledTime

theorem history_attempts (m : Message) (attempts : List Attempt) :
    (m.history attempts).map Call.attempt = attempts := by
  induction attempts generalizing m with
  | nil => rfl
  | cons a rest ih => simp [history, ih]

theorem mem_history {m : Message} {attempts : List Attempt} {c : Call}
    (hc : c ∈ m.history attempts) :
    ∃ a state, c = ⟨a, ({ m with state := state } : Message).attempt a⟩ := by
  obtain ⟨i, hi⟩ := List.mem_iff_getElem?.mp hc
  obtain ⟨a, -, rfl⟩ := history_getElem? hi
  exact ⟨a, (m.after (attempts.take i)).state, by rw [← after_frame]⟩

/-- Whatever the stores and transports of a run do, and in whatever order they fail, a built
message is delivered at most once and with the text that was expanded when it was built. -/
theorem built_delivered_at_most_once {m : Message} (hm : Built m) (attempts : List Attempt) :
    Constructed m ∧ AtMostOnce m attempts := by
  have hunsent := hm.unsent
  refine ⟨constructed m, ?_⟩
  constructor
  case one_call => exact history_attempts m attempts
  case one_success =>
    intro i j c d r t hc hr hd ht
    exact success_unique hc hr hd ht
  case rejected =>
    intro i j c d r hc hr hij hd
    exact rejected_after_success hc hr hij hd
  case post =>
    intro c hc url payload hpost
    obtain ⟨a, state, rfl⟩ := mem_history hc
    obtain ⟨rfl, hurl⟩ := attempt_post hpost
    exact ⟨rfl, hurl⟩
  case failure =>
    intro c hc
    obtain ⟨a, state, rfl⟩ := mem_history hc
    exact failedPost_iff
  case posts =>
    rw [posts_length (isSent_eq_false_iff.mpr hunsent)]
    cases (m.after attempts).isSent <;> rfl
  case response =>
    intro c hc r hr
    obtain ⟨a, state, rfl⟩ := mem_history hc
    obtain ⟨-, -, htime, -, -, response, hresponse, hstatus, -⟩ := attempt_succeeds hr
    exact ⟨htime, response, hresponse, hstatus⟩
  case unsent =>
    intro k hk
    exact after_unsent hunsent hk
  case sent =>
    intro i k c r hc hr hik
    exact after_state_of_success hc hr hik
  case frame =>
    intro k
    rw [after_frame]
    exact ⟨rfl, rfl, rfl, rfl⟩

def party : Grammar :=
  ⟨.ofList [("greeting", ⟨"greeting", [.literal "Hi", .literal "Hello"]⟩)], English.modifiers⟩

def invitation : Message := ⟨"general", party, "Hello all", 0, .unsent⟩

theorem compose_invitation : compose "general" "#greeting# all" party 0 (Script.of [1]) =
    (.ok invitation, Script.of []) := by cbv

/-- The directory is unreadable, then empty, then the post fails, and then every post is
answered. -/
def troubledRun : List Attempt :=
  [⟨fun _ => .error (.unreadable "webhooks.json" .notFound), fun _ _ => .ok ⟨204, ""⟩, 1⟩,
    ⟨fun _ => .ok none, fun _ _ => .ok ⟨204, ""⟩, 2⟩,
    ⟨fun _ => .ok (some "/a"), fun _ _ => .error (.http "refused"), 3⟩,
    ⟨fun _ => .ok (some "/b"), fun _ _ => .ok ⟨500, "busy"⟩, 4⟩,
    ⟨fun _ => .ok (some "/c"), fun _ _ => .ok ⟨204, ""⟩, 5⟩]

theorem invitation_delivered_at_most_once :
    Built invitation ∧ (invitation.after troubledRun).state = .sent 4 500 ∧
      party.flatten "#greeting# all" (Script.of [1]) = (.ok "Hello all", Script.of []) ∧
      (invitation.history troubledRun).flatMap Call.posts =
        [("/a", ⟨"Hello all"⟩), ("/b", ⟨"Hello all"⟩)] ∧
      AtMostOnce invitation troubledRun := by
  have hbuilt : Built invitation := .composed compose_invitation
  obtain ⟨hconstructed, hdelivered⟩ := built_delivered_at_most_once hbuilt troubledRun
  exact ⟨hbuilt, rfl, (hconstructed.composed compose_invitation).1, rfl, hdelivered⟩

end Announcer.Message
