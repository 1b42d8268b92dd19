import CHomework.FileObserver.Connection

/-!
What holds between the server and its client in every order of their steps: no byte is lost
or added on its way, and the server watches the file only for a client that has asked for it.
-/

namespace CHomework.FileObserver

open CHomework.Buffer
open CHomework.CString
open CHomework.Runs

/-- What the client may have sent when it is at a call. -/
def Place.texts : Place → List (List UInt8)
  | .sendTest => [[]]
  | .recvAnswer | .sendSubscribe => [[], testCmd.bytes]
  | .recvLoop =>
      [[], testCmd.bytes, subscribeCmd.bytes, testCmd.bytes ++ subscribeCmd.bytes]

theorem zero_notMem_texts {place : Place} {text : List UInt8} (h : text ∈ place.texts) :
    (0 : UInt8) ∉ text := by
  have hall : ∀ text ∈ place.texts, (0 : UInt8) ∉ text := by
    cases place <;> decide
  exact hall text h

theorem length_texts_le {place : Place} {text : List UInt8} (h : text ∈ place.texts) :
    text.length ≤ 14 := by
  have hall : ∀ text ∈ place.texts, text.length ≤ 14 := by
    cases place <;> decide
  exact hall text h

theorem texts_received {place next : Place} (h : place.received = some next) {text : List UInt8}
    (htext : text ∈ place.texts) : text ∈ next.texts := by
  cases place with
  | recvAnswer =>
      obtain rfl : Place.sendSubscribe = next := Option.some.inj h
      exact htext
  | recvLoop =>
      obtain rfl : Place.recvLoop = next := Option.some.inj h
      exact htext
  | sendTest => cases h
  | sendSubscribe => cases h

theorem received_ne {place next : Place} (h : place.received = some next) :
    ¬ (next = .sendTest ∨ next = .recvAnswer) := by
  cases place <;> cases h <;> decide

theorem texts_sending {place next : Place} {sendMsg : CStr}
    (h : place.sending = some (sendMsg, next)) {text : List UInt8} (htext : text ∈ place.texts)
    (sent : Bool) : text ++ (if sent then sendMsg.bytes else []) ∈ next.texts := by
  have hall : ∀ text ∈ place.texts, ∀ sent : Bool,
      text ++ (if sent then sendMsg.bytes else []) ∈ next.texts := by
    cases place with
    | sendTest =>
        cases h
        decide
    | sendSubscribe =>
        cases h
        decide
    | recvAnswer => cases h
    | recvLoop => cases h
  exact hall text htext sent

/-- The command can only be the end of what was sent. -/
theorem eq_of_subscribe_infix {place : Place} {before after : List UInt8}
    (h : before ++ (subscribeCmd.bytes ++ after) ∈ place.texts) :
    place = .recvLoop ∧ after = [] ∧ (before = [] ∨ before = testCmd.bytes) := by
  have hall : ∀ text ∈ place.texts, ∀ k < 15, subscribeCmd.bytes <+: text.drop k →
      place = .recvLoop ∧ text.drop (k + 9) = [] ∧
        (text.take k = [] ∨ text.take k = testCmd.bytes) := by
    cases place <;> decide
  have hlength := length_texts_le h
  rw [List.length_append] at hlength
  have hsplit := hall _ h before.length (by omega) (by
    rw [List.drop_left]
    exact List.prefix_append _ _)
  rw [← List.append_assoc, List.drop_left' (by rw [List.length_append]; rfl), List.append_assoc,
    List.take_left] at hsplit
  exact hsplit

structure Inv (c : Connection) : Prop where
  toServer : c.server.received.flatMap CStr.bytes ++ c.toServer ∈ c.client.place.texts
  noNul : (0 : UInt8) ∉ c.toClient
  handshake : c.server.phase = .handshake → subscribeCmd ∉ c.server.received
  subscribed : c.server.phase ≠ .handshake → c.server.phase ≠ .exited →
    ∃ before, c.server.received = before ++ [subscribeCmd] ∧ subscribeCmd ∉ before
  unsent : c.server.phase = .handshake ∨ c.server.phase = .subscribed →
    c.server.monitor.sent = []
  unread : c.client.place = .sendTest ∨ c.client.place = .recvAnswer → c.client.printed = []

theorem inv_connected (fileStatSize : Int64) : Inv (connected fileStatSize) where
  toServer := List.mem_singleton.mpr rfl
  noNul := List.not_mem_nil
  handshake := fun _ => List.not_mem_nil
  subscribed := fun h => absurd rfl h
  unsent := fun _ => rfl
  unread := fun _ => rfl

namespace Inv

variable {c c' : Connection} (h : Inv c)

include h

theorem toServer_noNul : (0 : UInt8) ∉ c.toServer :=
  fun hmem => zero_notMem_texts h.toServer (List.mem_append_right _ hmem)

theorem toServer_short : c.toServer.length < socketBuf := by
  have hlength := length_texts_le h.toServer
  rw [List.length_append] at hlength
  have hbuf : 14 < socketBuf := by decide
  omega

theorem clientSend {sent : Bool} (hc' : FileObserver.clientSend c sent = some c') : Inv c' := by
  obtain ⟨sendMsg, place, hsending, rfl⟩ := clientSend_cases hc'
  refine ⟨?_, h.noNul, h.handshake, h.subscribed, h.unsent, fun hplace => h.unread ?_⟩
  · rw [← List.append_assoc]
    exact texts_sending hsending h.toServer sent
  · cases hfrom : c.client.place <;> rw [hfrom] at hsending <;> cases hsending
    · exact Or.inl rfl
    · rcases hplace with hplace | hplace <;> cases hplace

theorem clientRecv {n : Nat} (hc' : FileObserver.clientRecv c n = some c') : Inv c' := by
  obtain ⟨-, place, hplace, ⟨-, -, rfl⟩ | ⟨-, -, rfl⟩ | ⟨-, -, -, recvMsg, hbytes, rfl⟩⟩ :=
    clientRecv_cases h.noNul hc'
  · exact ⟨texts_received hplace h.toServer, h.noNul, h.handshake, h.subscribed, h.unsent,
      fun hp => absurd hp (received_ne hplace)⟩
  · exact ⟨h.toServer, h.noNul, h.handshake, h.subscribed, h.unsent, h.unread⟩
  · exact ⟨texts_received hplace h.toServer, fun hmem => h.noNul (List.mem_of_mem_drop hmem),
      h.handshake, h.subscribed, h.unsent, fun hp => absurd hp (received_ne hplace)⟩

theorem clientFail (hc' : FileObserver.clientFail c = some c') : Inv c' := by
  obtain ⟨-, place, hplace, rfl⟩ := clientFail_cases hc'
  exact ⟨texts_received hplace h.toServer, h.noNul, h.handshake, h.subscribed, h.unsent,
    fun hp => absurd hp (received_ne hplace)⟩

theorem serverRecv {n : Nat} {sent : Bool}
    (hc' : FileObserver.serverRecv c n sent = some c') : Inv c' := by
  obtain ⟨hphase, -, -, buf, hbytes, rfl⟩ :=
    serverRecv_cases h.toServer_noNul h.toServer_short hc'
  have hnot := h.handshake hphase
  have htexts : (c.server.received ++ [buf]).flatMap CStr.bytes ++ c.toServer.drop n ∈
      c.client.place.texts := by
    rw [List.flatMap_append, List.flatMap_singleton, hbytes, List.append_assoc,
      List.take_append_drop]
    exact h.toServer
  rcases eq_or_ne buf subscribeCmd with rfl | hne
  · have hnext : nextOf subscribeCmd sent = .ends .subscribed := if_pos rfl
    rw [hnext]
    exact
      { toServer := htexts
        noNul := by
          rw [Next.answer, List.append_nil]
          exact h.noNul
        handshake := fun hp => by cases hp
        subscribed := fun _ _ => ⟨_, rfl, hnot⟩
        unsent := fun _ => h.unsent (Or.inl hphase)
        unread := h.unread }
  have hmem : subscribeCmd ∉ c.server.received ++ [buf] := by
    rw [List.mem_append, List.mem_singleton, not_or]
    exact ⟨hnot, hne.symm⟩
  cases sent with
  | false =>
      have hnext : nextOf buf false = .ends .failed := by
        rw [nextOf, if_neg hne]
        rfl
      rw [hnext]
      exact
        { toServer := htexts
          noNul := by
            rw [Next.answer, List.append_nil]
            exact h.noNul
          handshake := fun hp => by cases hp
          subscribed := fun _ hp => absurd rfl hp
          unsent := fun _ => h.unsent (Or.inl hphase)
          unread := h.unread }
  | true =>
      have hnext : nextOf buf true = .goesOn (List.replicate socketBuf 0) := by
        rw [nextOf, if_neg hne]
        rfl
      have hanswer : (0 : UInt8) ∉ unknownCmd := Utf8.zero_notMem_toUTF8 (by decide)
      rw [hnext]
      exact
        { toServer := htexts
          noNul := fun hmem => (List.mem_append.mp hmem).elim h.noNul hanswer
          handshake := fun _ => hmem
          subscribed := fun hp => absurd rfl hp
          unsent := fun _ => h.unsent (Or.inl hphase)
          unread := h.unread }

theorem serverOpen {opens : Bool} (hc' : FileObserver.serverOpen c opens = some c') : Inv c' := by
  obtain ⟨hphase, monitor, hsent, rfl⟩ := serverOpen_cases hc'
  have hlast := h.subscribed (by rw [hphase]; decide) (by rw [hphase]; decide)
  exact
    { toServer := h.toServer
      noNul := h.noNul
      handshake := fun hp => by cases opens <;> cases hp
      subscribed := fun _ _ => hlast
      unsent := fun _ => hsent.trans (h.unsent (Or.inr hphase))
      unread := h.unread }

theorem serverEvent {path : CStr} {event : Event}
    (hc' : FileObserver.serverEvent path c event = some c') : Inv c' := by
  obtain ⟨hphase, rfl | ⟨monitor, msg, hnul, hsent, rfl⟩⟩ := serverEvent_cases hc'
  all_goals
    have hlast := h.subscribed (by rw [hphase]; decide) (by rw [hphase]; decide)
  · exact
      { toServer := h.toServer
        noNul := h.noNul
        handshake := fun hp => by cases hp
        subscribed := fun _ _ => hlast
        unsent := fun hp => by rcases hp with hp | hp <;> cases hp
        unread := h.unread }
  · exact
      { toServer := h.toServer
        noNul := fun hmem => (List.mem_append.mp hmem).elim h.noNul hnul
        handshake := h.handshake
        subscribed := h.subscribed
        unsent := fun hp => by
          rw [hphase] at hp
          rcases hp with hp | hp <;> cases hp
        unread := h.unread }

theorem serverEnd (hc' : FileObserver.serverEnd c = some c') : Inv c' := by
  obtain ⟨hphase, rfl | ⟨monitor, hsent, rfl⟩⟩ := serverEnd_cases hc'
  all_goals
    have hlast := h.subscribed (by rw [hphase]; decide) (by rw [hphase]; decide)
  · exact
      { toServer := h.toServer
        noNul := h.noNul
        handshake := fun hp => by cases hp
        subscribed := fun _ _ => hlast
        unsent := fun hp => by rcases hp with hp | hp <;> cases hp
        unread := h.unread }
  · exact
      { toServer := h.toServer
        noNul := h.noNul
        handshake := fun hp => by cases hp
        subscribed := fun _ hp => absurd rfl hp
        unsent := fun hp => by rcases hp with hp | hp <;> cases hp
        unread := h.unread }

theorem serverFail (hc' : FileObserver.serverFail c = some c') : Inv c' := by
  obtain rfl := serverFail_cases hc'
  exact
    { toServer := h.toServer
      noNul := h.noNul
      handshake := fun hp => by cases hp
      subscribed := fun _ hp => absurd rfl hp
      unsent := fun hp => by rcases hp with hp | hp <;> cases hp
      unread := h.unread }

theorem step {path : CStr} {action : Action} (hc' : FileObserver.step path c action = some c') :
    Inv c' := by
  cases action with
  | clientSend sent => exact h.clientSend hc'
  | clientRecv n => exact h.clientRecv hc'
  | clientFail => exact h.clientFail hc'
  | serverRecv n sent => exact h.serverRecv hc'
  | serverOpen opens => exact h.serverOpen hc'
  | serverEvent event => exact h.serverEvent hc'
  | serverEnd => exact h.serverEnd hc'
  | serverFail => exact h.serverFail hc'

end Inv

theorem inv_of_run {path : CStr} {fileStatSize : Int64} {actions : List Action} {c : Connection}
    (hrun : run (step path) (connected fileStatSize) actions = some c) : Inv c :=
  run_invariant (step path) Inv (inv_connected fileStatSize) (fun _ _ _ h hstep => h.step hstep)
    hrun

/-- What the `send` calls of the client return. -/
def clientSends (actions : List Action) : List Bool :=
  actions.filterMap fun
    | .clientSend sent => some sent
    | _ => none

/-- What `send` returns, or would return, in the rounds of the handshake. -/
def serverSends (actions : List Action) : List Bool :=
  actions.filterMap fun
    | .serverRecv _ sent => some sent
    | _ => none

/-- The commands of the client whose `send` succeeds. -/
def commands (sends : List Bool) : List CStr :=
  (([testCmd, subscribeCmd].zip sends).filter fun command => command.2).map fun command => command.1

/-- Each string but the command is answered, when `send` succeeds. -/
def answers (received : List CStr) (sends : List Bool) : List UInt8 :=
  (received.zip sends).flatMap fun round =>
    if round.1 ≠ subscribeCmd ∧ round.2 = true then unknownCmd else []

/-- The `send` calls that the client has made. -/
def Place.calls : Place → Nat
  | .sendTest => 0
  | .recvAnswer | .sendSubscribe => 1
  | .recvLoop => 2

theorem calls_received {place next : Place} (h : place.received = some next) :
    next.calls = place.calls := by
  cases place <;> cases h <;> rfl

theorem calls_sending {place next : Place} {sendMsg : CStr}
    (h : place.sending = some (sendMsg, next)) : next.calls = place.calls + 1 := by
  cases place <;> cases h <;> rfl

theorem commands_sending {place next : Place} {sendMsg : CStr}
    (h : place.sending = some (sendMsg, next)) {sends : List Bool}
    (hcalls : sends.length = place.calls) (sent : Bool) :
    (commands (sends ++ [sent])).flatMap CStr.bytes =
      (commands sends).flatMap CStr.bytes ++ if sent then sendMsg.bytes else [] := by
  cases place with
  | sendTest =>
      obtain rfl : sends = [] := List.length_eq_zero_iff.mp hcalls
      cases h
      cases sent <;> rfl
  | sendSubscribe =>
      obtain ⟨first, rfl⟩ := List.length_eq_one_iff.mp hcalls
      cases h
      cases first <;> cases sent <;> rfl
  | recvAnswer => cases h
  | recvLoop => cases h

theorem answers_snoc {received : List CStr} {sends : List Bool}
    (hrounds : sends.length = received.length) (buf : CStr) (sent : Bool) :
    answers (received ++ [buf]) (sends ++ [sent]) =
      answers received sends ++ (nextOf buf sent).answer := by
  rw [answers, List.zip_append hrounds.symm, List.flatMap_append]
  congr 1
  rcases eq_or_ne buf subscribeCmd with rfl | hne
  · rw [nextOf, if_pos rfl]
    rfl
  cases sent with
  | false =>
      rw [nextOf, if_neg hne]
      simp [Next.answer]
  | true =>
      rw [nextOf, if_neg hne]
      simp [Next.answer, hne]

/-- What the parties have received and what is on their way, against what the calls of `send`
have returned. -/
structure Logged (sends replies : List Bool) (c : Connection) : Prop where
  calls : sends.length = c.client.place.calls
  rounds : replies.length = c.server.received.length
  toServer : c.server.received.flatMap CStr.bytes ++ c.toServer =
    (commands sends).flatMap CStr.bytes
  toClient : c.client.printed.flatMap CStr.bytes ++ c.toClient =
    answers c.server.received replies ++ c.server.monitor.sent

theorem logged_connected (fileStatSize : Int64) : Logged [] [] (connected fileStatSize) where
  calls := rfl
  rounds := rfl
  toServer := rfl
  toClient := rfl

section Logged

variable {sends replies : List Bool} {c c' : Connection}

theorem Logged.append_nil (h : Logged sends replies c) :
    Logged (sends ++ []) (replies ++ []) c := by
  rwa [List.append_nil, List.append_nil]

theorem Logged.clientSend (h : Logged sends replies c) {sent : Bool}
    (hc' : FileObserver.clientSend c sent = some c') : Logged (sends ++ [sent]) replies c' := by
  obtain ⟨sendMsg, place, hsending, rfl⟩ := clientSend_cases hc'
  have hcalls : (sends ++ [sent]).length = place.calls := by
    rw [List.length_append, h.calls, calls_sending hsending]
    rfl
  refine ⟨hcalls, h.rounds, ?_, h.toClient⟩
  exact (List.append_assoc _ _ _).symm.trans
    (h.toServer ▸ (commands_sending hsending h.calls sent).symm)

theorem Logged.clientRecv (h : Logged sends replies c) (hinv : Inv c) {n : Nat}
    (hc' : FileObserver.clientRecv c n = some c') : Logged sends replies c' := by
  obtain ⟨-, place, hplace, ⟨-, -, rfl⟩ | ⟨-, -, rfl⟩ | ⟨-, -, -, recvMsg, hbytes, rfl⟩⟩ :=
    clientRecv_cases hinv.noNul hc'
  · exact ⟨h.calls.trans (calls_received hplace).symm, h.rounds, h.toServer, h.toClient⟩
  · exact ⟨h.calls, h.rounds, h.toServer, h.toClient⟩
  · refine ⟨h.calls.trans (calls_received hplace).symm, h.rounds, h.toServer, ?_⟩
    rw [List.flatMap_append, List.flatMap_singleton, hbytes, List.append_assoc,
      List.take_append_drop]
    exact h.toClient

theorem Logged.serverRecv (h : Logged sends replies c) (hinv : Inv c) {n : Nat} {sent : Bool}
    (hc' : FileObserver.serverRecv c n sent = some c') :
    Logged sends (replies ++ [sent]) c' := by
  obtain ⟨hphase, -, -, buf, hbytes, rfl⟩ :=
    serverRecv_cases hinv.toServer_noNul hinv.toServer_short hc'
  have hunsent := hinv.unsent (Or.inl hphase)
  have htoClient := h.toClient
  rw [hunsent, List.append_nil] at htoClient
  refine ⟨h.calls, ?_, ?_, ?_⟩
  · rw [List.length_append, List.length_append, h.rounds]
    rfl
  · rw [List.flatMap_append, List.flatMap_singleton, hbytes, List.append_assoc,
      List.take_append_drop]
    exact h.toServer
  · rw [answers_snoc h.rounds, hunsent, List.append_nil, ← htoClient, List.append_assoc]

theorem Logged.step {path : CStr} {action : Action} (h : Logged sends replies c) (hinv : Inv c)
    (hc' : FileObserver.step path c action = some c') :
    Logged (sends ++ clientSends [action]) (replies ++ serverSends [action]) c' := by
  cases action with
  | clientSend sent =>
      rw [show serverSends [.clientSend sent] = [] from rfl, List.append_nil]
      exact h.clientSend hc'
  | serverRecv n sent =>
      rw [show clientSends [.serverRecv n sent] = [] from rfl, List.append_nil]
      exact h.serverRecv hinv hc'
  | clientRecv n =>
      apply Logged.append_nil
      exact h.clientRecv hinv hc'
  | clientFail =>
      apply Logged.append_nil
      obtain ⟨-, place, hplace, rfl⟩ := clientFail_cases hc'
      exact ⟨h.calls.trans (calls_received hplace).symm, h.rounds, h.toServer, h.toClient⟩
  | serverOpen opens =>
      apply Logged.append_nil
      obtain ⟨-, monitor, hsent, rfl⟩ := serverOpen_cases hc'
      exact ⟨h.calls, h.rounds, h.toServer, by rw [hsent]; exact h.toClient⟩
  | serverEvent event =>
      apply Logged.append_nil
      obtain ⟨-, rfl | ⟨monitor, msg, -, hsent, rfl⟩⟩ := serverEvent_cases hc'
      · exact ⟨h.calls, h.rounds, h.toServer, h.toClient⟩
      · refine ⟨h.calls, h.rounds, h.toServer, ?_⟩
        rw [hsent, ← List.append_assoc, h.toClient, List.append_assoc]
  | serverEnd =>
      apply Logged.append_nil
      obtain ⟨-, rfl | ⟨monitor, hsent, rfl⟩⟩ := serverEnd_cases hc'
      · exact ⟨h.calls, h.rounds, h.toServer, h.toClient⟩
      · exact ⟨h.calls, h.rounds, h.toServer, by rw [hsent]; exact h.toClient⟩
  | serverFail =>
      apply Logged.append_nil
      obtain rfl := serverFail_cases hc'
      exact ⟨h.calls, h.rounds, h.toServer, h.toClient⟩

end Logged

/-- The induction is on the run, with the invariant of its state. -/
theorem logged_of_run {path : CStr} {fileStatSize : Int64} {actions : List Action}
    {c : Connection} (hrun : run (step path) (connected fileStatSize) actions = some c) :
    Logged (clientSends actions) (serverSends actions) c := by
  induction actions using List.reverseRecOn generalizing c with
  | nil =>
      obtain rfl := Option.some.inj hrun
      exact logged_connected fileStatSize
  | append_singleton actions action ih =>
      obtain ⟨c', hc', hstep⟩ := (run_snoc_eq_some_iff _).mp hrun
      have hclient : clientSends (actions ++ [action]) =
          clientSends actions ++ clientSends [action] := List.filterMap_append
      have hserver : serverSends (actions ++ [action]) =
          serverSends actions ++ serverSends [action] := List.filterMap_append
      rw [hclient, hserver]
      exact (ih hc').step (inv_of_run hc') hstep

section Runs

variable {path : CStr} {fileStatSize : Int64} {actions : List Action} {c : Connection}

/-- In every order of steps the server has received, or has on its way, the commands that the
client has sent, and the client the answers and the messages of the server: no byte is lost
or added. The server only leaves the handshake for a client that has sent the whole command
and nothing behind it. -/
theorem delivery (hrun : run (step path) (connected fileStatSize) actions = some c) :
    c.server.received.flatMap CStr.bytes ++ c.toServer =
      (commands (clientSends actions)).flatMap CStr.bytes ∧
    c.server.received.length = (serverSends actions).length ∧
    c.client.printed.flatMap CStr.bytes ++ c.toClient =
      answers c.server.received (serverSends actions) ++ c.server.monitor.sent ∧
    (c.server.phase ≠ .handshake → c.server.phase ≠ .exited →
      c.client.place = .recvLoop ∧ c.toServer = [] ∧ ∃ before,
        c.server.received = before ++ [subscribeCmd] ∧ subscribeCmd ∉ before ∧
        (before.flatMap CStr.bytes = [] ∨ before.flatMap CStr.bytes = testCmd.bytes)) := by
  have h := inv_of_run hrun
  have hlog := logged_of_run hrun
  refine ⟨hlog.toServer, hlog.rounds.symm, hlog.toClient, ?_⟩
  intro hphase hexited
  obtain ⟨before, hreceived, hnot⟩ := h.subscribed hphase hexited
  have htexts := h.toServer
  rw [hreceived, List.flatMap_append, List.flatMap_singleton, List.append_assoc] at htexts
  obtain ⟨hplace, hempty, hbefore⟩ := eq_of_subscribe_infix htexts
  exact ⟨hplace, hempty, before, hreceived, hnot, hbefore⟩

/-- The server has received the commands as they were sent, and the client has received four
bytes of the answer. -/
theorem delivery_sample : ∃ c, run (step (ofBuffer [0x61])) (connected 0)
    [.clientSend true, .serverRecv 5 true, .clientRecv 4, .clientSend true,
      .serverRecv 9 true] = some c ∧
    c.server.received.flatMap CStr.bytes ++ c.toServer = testCmd.bytes ++ subscribeCmd.bytes ∧
    c.client.printed.flatMap CStr.bytes ++ c.toClient = unknownCmd := by
  obtain ⟨c, hrun⟩ := Option.isSome_iff_exists.mp (show (run (step (ofBuffer [0x61]))
    (connected 0) [.clientSend true, .serverRecv 5 true, .clientRecv 4, .clientSend true,
      .serverRecv 9 true]).isSome by decide +kernel)
  have hend : (run (step (ofBuffer [0x61])) (connected 0)
      [.clientSend true, .serverRecv 5 true, .clientRecv 4, .clientSend true,
        .serverRecv 9 true]).all (fun c =>
          c.server.received = [testCmd, subscribeCmd] ∧ c.server.monitor.sent = []) := by
    decide +kernel
  rw [hrun] at hend
  obtain ⟨hreceived, hsent⟩ : c.server.received = [testCmd, subscribeCmd] ∧
      c.server.monitor.sent = [] := by simpa using hend
  obtain ⟨htoServer, -, htoClient, -⟩ := delivery hrun
  rw [hreceived, hsent, List.append_nil] at htoClient
  exact ⟨c, hrun, htoServer, htoClient.trans (by decide +kernel)⟩

theorem overread_step {c c' : Connection} (h : Inv c) {action : Action}
    (hc' : step path c action = some c') :
    c'.client.overread = true ↔ c.client.overread = true ∨ action = .clientRecv sRecvLen := by
  cases action with
  | clientSend sent =>
      obtain ⟨sendMsg, place, -, rfl⟩ := clientSend_cases hc'
      simp
  | clientRecv n =>
      obtain ⟨hoverread, place, -, ⟨rfl, -, rfl⟩ | ⟨rfl, -, rfl⟩ | ⟨-, hn, -, recvMsg, -, rfl⟩⟩ :=
        clientRecv_cases h.noNul hc'
      · simp [hoverread, sRecvLen]
      · simp
      · simp [hoverread, Nat.ne_of_lt hn]
  | clientFail =>
      obtain ⟨hoverread, place, -, rfl⟩ := clientFail_cases hc'
      simp
  | serverRecv n sent =>
      obtain ⟨-, -, -, buf, -, rfl⟩ := serverRecv_cases h.toServer_noNul h.toServer_short hc'
      simp
  | serverOpen opens =>
      obtain ⟨-, monitor, -, rfl⟩ := serverOpen_cases hc'
      simp
  | serverEvent event =>
      obtain ⟨-, rfl | ⟨monitor, msg, -, -, rfl⟩⟩ := serverEvent_cases hc'
      · simp
      · simp
  | serverEnd =>
      obtain ⟨-, rfl | ⟨monitor, -, rfl⟩⟩ := serverEnd_cases hc'
      · simp
      · simp
  | serverFail =>
      obtain rfl := serverFail_cases hc'
      simp

/-- The client reads behind its buffer exactly if a call of `recv` has filled it. -/
theorem overread_iff (hrun : run (step path) (connected fileStatSize) actions = some c) :
    c.client.overread = true ↔ .clientRecv sRecvLen ∈ actions := by
  induction actions using List.reverseRecOn generalizing c with
  | nil =>
      obtain rfl := Option.some.inj hrun
      simp [connected]
  | append_singleton actions action ih =>
      obtain ⟨c', hc', hstep⟩ := (run_snoc_eq_some_iff _).mp hrun
      rw [overread_step (inv_of_run hc') hstep, ih hc', List.mem_append, List.mem_singleton,
        eq_comm]

/-- The file `a` is deleted and created. -/
def sampleEvents : List Action :=
  [.serverEvent
      { mask := inDelete, name := ofBuffer [0x61], opens := true, size := none, sends := true },
    .serverEvent
      { mask := inCreate, name := ofBuffer [0x61], opens := true, size := none, sends := true }]

/-- That happens five times before the client receives the messages. -/
theorem overread_iff_sample : ∃ c, run (step (ofBuffer [0x61])) (connected 0)
    ([.clientSend true, .serverRecv 5 true, .clientRecv 15, .clientSend true, .serverRecv 9 true,
      .serverOpen true] ++ (List.replicate 5 sampleEvents).flatten ++ [.clientRecv 200]) = some c ∧
    c.client.overread = true := by
  obtain ⟨c, hrun⟩ := Option.isSome_iff_exists.mp (show (run (step (ofBuffer [0x61]))
    (connected 0) ([.clientSend true, .serverRecv 5 true, .clientRecv 15, .clientSend true,
      .serverRecv 9 true, .serverOpen true] ++ (List.replicate 5 sampleEvents).flatten ++
      [.clientRecv 200])).isSome by decide +kernel)
  exact ⟨c, hrun, (overread_iff hrun).mpr (by simp [sRecvLen])⟩

end Runs

end CHomework.FileObserver
