import Announcer.Proofs.Message.Delivery

/-! # One sending

How a call ends is decided by the state of the message, then by the answer of the store, then by that
of the transport. The store is asked for the target of an unsent message, and the transport is asked
once an address is found; nothing is asked twice. Whatever fails, the message stays as it is. A
directory in a file counts as it is read during the call.
-/
namespace Announcer.Message

open Webhook (Directory DirectoryFile Payload Store StoreError)

/-- Sending as a program of its two calls, however these are made. -/
def sendBy {μ : Type → Type} [Monad μ] (m : Message)
    (lookup : String → μ (Except StoreError (Option String)))
    (post : String → Payload → μ (Except TransportError Response)) (now : Instant) :
    μ (Except MessageError Receipt × Message) :=
  if m.isSent then return (.error .alreadySent, m)
  else do
    match ← lookup m.target with
    | .error cause => return (.error (.webhook cause), m)
    | .ok none => return (.error (.unknownTarget m.target), m)
    | .ok (some url) =>
      match ← post url m.payload with
      | .error cause => return (.error (.transport cause), m)
      | .ok response =>
        return (.ok ⟨m.target, url, response.status, response.body, now⟩,
          { m with state := .sent now response.status })

def noted {α : Type} (e : Effect) (answer : α) : StateM (List Effect) α := do
  modify (· ++ [e])
  return answer

theorem run_noted_bind {α β : Type} (e : Effect) (answer : α) (f : α → StateM (List Effect) β)
    (calls : List Effect) : (noted e answer >>= f).run calls = (f answer).run (calls ++ [e]) := rfl

/-- A sending does what the program does, and its effects are the calls that the program makes. -/
theorem sendBy_noted (m : Message) (store : Store) (transport : Transport) (now : Instant) :
    (m.sendBy (fun target => noted (.lookup target) (store target))
        (fun url payload => noted (.post url payload) (transport url payload)) now).run [] =
      (((m.send store transport now).result, (m.send store transport now).message),
        (m.send store transport now).effects) := by
  unfold sendBy send
  by_cases hsent : m.isSent = true
  · rw [if_pos hsent, if_pos hsent]
    rfl
  · rw [if_neg hsent, if_neg hsent, run_noted_bind]
    cases store m.target with
    | error cause => rfl
    | ok entry =>
      cases entry with
      | none => rfl
      | some url =>
        dsimp only
        rw [run_noted_bind]
        cases transport url m.payload <;> rfl

/-- The ends of a call, each with the exact condition for it, and what the call did. -/
structure SentExactly (m : Message) (a : Attempt) (sending : Sending) : Prop where
  rejected : sending.result = .error .alreadySent ↔ m.isSent = true
  unreadable : ∀ cause, sending.result = .error (.webhook cause) ↔
    m.isSent = false ∧ a.store m.target = .error cause
  unknown : ∀ target, sending.result = .error (.unknownTarget target) ↔
    m.isSent = false ∧ a.store m.target = .ok none ∧ m.target = target
  failed : ∀ cause, sending.result = .error (.transport cause) ↔
    m.isSent = false ∧ ∃ url, a.store m.target = .ok (some url) ∧
      a.transport url m.payload = .error cause
  delivered : ∀ receipt, sending.result = .ok receipt ↔
    m.isSent = false ∧ ∃ url response, a.store m.target = .ok (some url) ∧
      a.transport url m.payload = .ok response ∧
      ⟨m.target, url, response.status, response.body, a.time⟩ = receipt
  completed : ∀ receipt, sending.result = .ok receipt →
    sending.message = { m with state := .sent a.time receipt.status }
  unchanged : ∀ cause, sending.result = .error cause → sending.message = m
  calls : sending.effects =
    if m.isSent then []
    else .lookup m.target :: match a.store m.target with
      | .ok (some url) => [.post url m.payload]
      | _ => []

theorem sentExactly (m : Message) (a : Attempt) : SentExactly m a (m.attempt a) := by
  have hout := attempt_outcome m a
  generalize m.attempt a = sending at hout
  cases hout with
  | rejected hsent => constructor <;> simp [hsent]
  | unreadable hunsent hlookup => constructor <;> simp [hunsent, hlookup]
  | unknown hunsent hlookup => constructor <;> simp [hunsent, hlookup]
  | failed hunsent hlookup hpost => constructor <;> simp [hunsent, hlookup, hpost]
  | delivered hunsent hlookup hpost => constructor <;> simp [hunsent, hlookup, hpost]

section File

variable {file : DirectoryFile} {files : Files}

theorem store_of_contents {contents : String} {directory : Directory}
    (hread : files.read file.path = .ok contents)
    (hparse : Directory.ofJson contents = .ok directory) : file.store files = directory.store := by
  funext name
  simp [DirectoryFile.store, Directory.load, hread, hparse, Except.mapError, bind, Except.bind]

theorem store_of_unreadable {cause : ReadError} (hread : files.read file.path = .error cause)
    (name : String) : file.store files name = .error (.unreadable file.path cause) := by
  simp [DirectoryFile.store, Directory.load, hread, Except.mapError, bind, Except.bind]

theorem store_of_unparsable {contents : String} {cause : StoreError}
    (hread : files.read file.path = .ok contents)
    (hparse : Directory.ofJson contents = .error cause) (name : String) :
    file.store files name = .error cause := by
  simp [DirectoryFile.store, Directory.load, hread, hparse, Except.mapError, bind, Except.bind]

theorem send_of_lookup_error {m : Message} {store : Store} {cause : StoreError}
    (hm : m.isSent = false) (h : store m.target = .error cause) (transport : Transport)
    (now : Instant) :
    m.send store transport now = ⟨.error (.webhook cause), m, [.lookup m.target]⟩ := by
  simp [send, hm, h]

theorem after_of_unsent {m : Message} {attempts : List Attempt}
    (h : (m.after attempts).isSent = false) : m.after attempts = m := by
  have hunsent : m.isSent = false := by
    by_contra hsent
    rw [after_of_sent (by simpa using hsent)] at h
    exact hsent h
  rw [after_frame, isSent_eq_false_iff.mp h, ← isSent_eq_false_iff.mp hunsent]

/-- A call with a file is a call with the directory that the file holds, or finds it unreadable. -/
structure SentByFile (m : Message) (file : DirectoryFile) (files : Files) (transport : Transport)
    (now : Instant) : Prop where
  contents : ∀ contents directory, files.read file.path = .ok contents →
    Directory.ofJson contents = .ok directory →
    m.send (file.store files) transport now = m.send directory.store transport now
  unreadable : ∀ cause, m.isSent = false → files.read file.path = .error cause →
    m.send (file.store files) transport now =
      ⟨.error (.webhook (.unreadable file.path cause)), m, [.lookup m.target]⟩
  unparsable : ∀ contents cause, m.isSent = false → files.read file.path = .ok contents →
    Directory.ofJson contents = .error cause →
    m.send (file.store files) transport now = ⟨.error (.webhook cause), m, [.lookup m.target]⟩

theorem sentByFile (m : Message) (file : DirectoryFile) (files : Files) (transport : Transport)
    (now : Instant) : SentByFile m file files transport now where
  contents contents directory hread hparse := by rw [store_of_contents hread hparse]
  unreadable cause hm hread :=
    send_of_lookup_error hm (store_of_unreadable hread m.target) transport now
  unparsable contents cause hm hread hparse :=
    send_of_lookup_error hm (store_of_unparsable hread hparse m.target) transport now

end File

/-- Every call ends in one of five ways, each under its exact condition, asks for no more than it
needs and changes the message only when it delivers. With a directory in a file the call goes by the
file as it is, whatever stores and files the earlier calls met: if none of them delivered, it is the
call that the message would have made at first. -/
theorem send_exact (m : Message) (a : Attempt) :
    SentExactly m a (m.send a.store a.transport a.time) ∧
    (m.sendBy (fun target => noted (.lookup target) (a.store target))
        (fun url payload => noted (.post url payload) (a.transport url payload)) a.time).run [] =
      (((m.send a.store a.transport a.time).result, (m.send a.store a.transport a.time).message),
        (m.send a.store a.transport a.time).effects) ∧
    ∀ (file : DirectoryFile) (files : Files) (earlier : List Attempt),
      SentByFile (m.after earlier) file files a.transport a.time ∧
      ((m.after earlier).isSent = false →
        (m.after earlier).send (file.store files) a.transport a.time =
          m.send (file.store files) a.transport a.time) := by
  refine ⟨sentExactly m a, sendBy_noted m a.store a.transport a.time, ?_⟩
  intro file files earlier
  refine ⟨sentByFile (m.after earlier) file files a.transport a.time, fun hunsent => ?_⟩
  rw [after_of_unsent hunsent]

end Announcer.Message
