import CHomework.FileObserver.Delivery

/-!
When the two parties end up waiting for each other. No call fails here, but a receive call
of the server may return a part of the bytes on their way.
-/

namespace CHomework.FileObserver

open CHomework.Buffer
open CHomework.CString
open CHomework.Runs

/-- No call of the handshake fails. -/
def Delivers : Action → Prop
  | .clientSend sent => sent = true
  | .serverRecv _ sent => sent = true
  | .clientFail | .serverFail => False
  | _ => True

/-- What the client has sent. -/
def Place.text : Place → List UInt8
  | .sendTest => []
  | .recvAnswer | .sendSubscribe => testCmd.bytes
  | .recvLoop => testCmd.bytes ++ subscribeCmd.bytes

theorem flatMap_commands (place : Place) :
    (commands (List.replicate place.calls true)).flatMap CStr.bytes = place.text := by
  cases place <;> rfl

/-- The strings that the server answers. -/
def unknown (received : List CStr) : Nat := received.countP (· ≠ subscribeCmd)

theorem answers_replicate (received : List CStr) :
    answers received (List.replicate received.length true) =
      (List.replicate (unknown received) unknownCmd).flatten := by
  induction received with
  | nil => rfl
  | cons buf received ih =>
      rw [answers, List.length_cons, List.replicate_succ, List.zip_cons_cons, List.flatMap_cons,
        ← answers, ih]
      rcases eq_or_ne buf subscribeCmd with rfl | hne
      · simp [unknown]
      · simp [unknown, hne, List.replicate_succ]

/-- Behind the handshake the server receives nothing. -/
theorem received_of_step {path : CStr} {c c' : Connection} {action : Action}
    (h : Inv c) (hphase : c.server.phase ≠ .handshake)
    (hc' : step path c action = some c') :
    c'.server.phase ≠ .handshake ∧ c'.server.received = c.server.received := by
  cases action with
  | clientSend sent =>
      obtain ⟨sendMsg, place, -, rfl⟩ := clientSend_cases hc'
      exact ⟨hphase, rfl⟩
  | clientRecv n =>
      obtain ⟨-, place, -, ⟨-, -, rfl⟩ | ⟨-, -, rfl⟩ | ⟨-, -, -, recvMsg, -, rfl⟩⟩ :=
        clientRecv_cases h.noNul hc'
      · exact ⟨hphase, rfl⟩
      · exact ⟨hphase, rfl⟩
      · exact ⟨hphase, rfl⟩
  | clientFail =>
      obtain ⟨-, place, -, rfl⟩ := clientFail_cases hc'
      exact ⟨hphase, rfl⟩
  | serverRecv n sent =>
      exact absurd (serverRecv_cases h.toServer_noNul h.toServer_short hc').1 hphase
  | serverOpen opens =>
      obtain ⟨-, monitor, -, rfl⟩ := serverOpen_cases hc'
      exact ⟨fun hp => (by cases opens <;> cases hp), rfl⟩
  | serverEvent event =>
      obtain ⟨-, rfl | ⟨monitor, msg, -, -, rfl⟩⟩ := serverEvent_cases hc'
      · exact ⟨fun hp => (by cases hp), rfl⟩
      · exact ⟨hphase, rfl⟩
  | serverEnd =>
      obtain ⟨-, rfl | ⟨monitor, -, rfl⟩⟩ := serverEnd_cases hc'
      · exact ⟨fun hp => (by cases hp), rfl⟩
      · exact ⟨fun hp => (by cases hp), rfl⟩
  | serverFail =>
      obtain rfl := serverFail_cases hc'
      exact ⟨fun hp => (by cases hp), rfl⟩

theorem asked_of_step {path : CStr} {c c' : Connection} {action : Action} (h : Inv c)
    (hasked : c.server.phase ≠ .handshake → subscribeCmd ∈ c.server.received)
    (hdelivers : Delivers action) (hc' : step path c action = some c')
    (hphase' : c'.server.phase ≠ .handshake) : subscribeCmd ∈ c'.server.received := by
  rcases ne_or_eq c.server.phase .handshake with hphase | hphase
  · rw [(received_of_step h hphase hc').2]
    exact hasked hphase
  cases action with
  | clientSend sent =>
      obtain ⟨sendMsg, place, -, rfl⟩ := clientSend_cases hc'
      exact absurd hphase hphase'
  | clientRecv n =>
      obtain ⟨-, place, -, ⟨-, -, rfl⟩ | ⟨-, -, rfl⟩ | ⟨-, -, -, recvMsg, -, rfl⟩⟩ :=
        clientRecv_cases h.noNul hc'
      all_goals exact absurd hphase hphase'
  | serverRecv n sent =>
      obtain rfl : sent = true := hdelivers
      obtain ⟨-, -, -, buf, -, rfl⟩ := serverRecv_cases h.toServer_noNul h.toServer_short hc'
      have hbuf : buf = subscribeCmd := by
        by_contra hne
        refine hphase' ?_
        rw [nextOf, if_neg hne]
        rfl
      rw [hbuf]
      simp
  | serverOpen opens =>
      have hsubscribed := (serverOpen_cases hc').1
      rw [hphase] at hsubscribed
      cases hsubscribed
  | serverEvent event =>
      have hmonitoring := (serverEvent_cases hc').1
      rw [hphase] at hmonitoring
      cases hmonitoring
  | serverEnd =>
      have hmonitoring := (serverEnd_cases hc').1
      rw [hphase] at hmonitoring
      cases hmonitoring
  | clientFail => exact hdelivers.elim
  | serverFail => exact hdelivers.elim

/-- What was sent when no call of the handshake has failed. -/
structure Delivered (c : Connection) : Prop where
  toServer : c.server.received.flatMap CStr.bytes ++ c.toServer = c.client.place.text
  toClient : c.client.printed.flatMap CStr.bytes ++ c.toClient =
    (List.replicate (unknown c.server.received) unknownCmd).flatten ++ c.server.monitor.sent
  asked : c.server.phase ≠ .handshake → subscribeCmd ∈ c.server.received

theorem delivered_of_run {path : CStr} {fileStatSize : Int64} {actions : List Action}
    {c : Connection} (hdelivers : ∀ action ∈ actions, Delivers action)
    (hrun : run (step path) (connected fileStatSize) actions = some c) : Delivered c := by
  have hlog := logged_of_run hrun
  have hsends : clientSends actions = List.replicate c.client.place.calls true := by
    refine List.eq_replicate_iff.mpr ⟨hlog.calls, fun sent hsent => ?_⟩
    obtain ⟨action, hmem, haction⟩ := List.mem_filterMap.mp hsent
    cases action <;> cases haction
    exact hdelivers _ hmem
  have hreplies : serverSends actions = List.replicate c.server.received.length true := by
    refine List.eq_replicate_iff.mpr ⟨hlog.rounds, fun sent hsent => ?_⟩
    obtain ⟨action, hmem, haction⟩ := List.mem_filterMap.mp hsent
    cases action <;> cases haction
    exact hdelivers _ hmem
  refine ⟨?_, ?_, ?_⟩
  · rw [hlog.toServer, hsends, flatMap_commands]
  · rw [hlog.toClient, hreplies, answers_replicate]
  · clear hlog hsends hreplies
    induction actions using List.reverseRecOn generalizing c with
    | nil =>
        obtain rfl := Option.some.inj hrun
        exact fun h => absurd rfl h
    | append_singleton actions action ih =>
        obtain ⟨c', hc', hstep⟩ := (run_snoc_eq_some_iff _).mp hrun
        exact asked_of_step (inv_of_run hc')
          (ih (fun a ha => hdelivers a (List.mem_append_left _ ha)) hc')
          (hdelivers action (by simp)) hstep

/-- The handshake is not over, and no party can take a step unless a call fails. -/
def Stuck (path : CStr) (c : Connection) : Prop :=
  c.server.phase = .handshake ∧
    ∀ action, (step path c action).isSome → action = .clientFail ∨ action = .serverFail

theorem serverRecv_isSome {c : Connection} (h : Inv c) (hphase : c.server.phase = .handshake)
    {n : Nat} (hpos : 0 < n) (hle : n ≤ c.toServer.length) (sent : Bool) :
    (serverRecv c n sent).isSome := by
  obtain ⟨buf, -, heq⟩ :=
    serverRecv_eq sent h.toServer_noNul h.toServer_short hphase hpos hle
  rw [heq]
  rfl

theorem clientRecv_isSome {c : Connection} {place : Place}
    (hplace : c.client.place.received = some place) (hoverread : c.client.overread = false)
    (hne : c.toClient ≠ []) :
    (clientRecv c 1).isSome := by
  have hlength : 1 ≤ c.toClient.length := List.length_pos_of_ne_nil hne
  rw [clientRecv, hplace, Option.bind_eq_bind, Option.bind_some, if_neg (by simp [hoverread]),
    if_neg (by decide), if_pos ⟨by decide, hlength⟩]
  split <;> rfl

section Stuck

variable {path : CStr} {c : Connection}

theorem Stuck.toServer_eq_nil (hstuck : Stuck path c) (h : Inv c) : c.toServer = [] := by
  by_contra hne
  have hfails := hstuck.2 (.serverRecv 1 true)
    (serverRecv_isSome h hstuck.1 Nat.one_pos (List.length_pos_of_ne_nil hne) true)
  simp at hfails

theorem Stuck.toClient_eq_nil (hstuck : Stuck path c) (hoverread : c.client.overread = false)
    {place : Place} (hplace : c.client.place.received = some place) : c.toClient = [] := by
  by_contra hne
  have hfails := hstuck.2 (.clientRecv 1) (clientRecv_isSome hplace hoverread hne)
  simp at hfails

theorem Stuck.sending_eq_none (hstuck : Stuck path c) : c.client.place.sending = none := by
  by_contra hne
  obtain ⟨next, hnext⟩ := Option.ne_none_iff_exists'.mp hne
  have hsome : (clientSend c true).isSome := by
    rw [clientSend, hnext]
    rfl
  have hfails := hstuck.2 (.clientSend true) hsome
  simp at hfails

theorem unknown_pos {received : List CStr} (hne : received ≠ [])
    (hnot : subscribeCmd ∉ received) : 0 < unknown received := by
  obtain ⟨command, hmem⟩ := List.exists_mem_of_ne_nil received hne
  apply List.countP_pos_iff.mpr
  refine ⟨command, hmem, ?_⟩
  simp only [ne_eq, decide_not, Bool.not_eq_eq_eq_not, Bool.not_true, decide_eq_false_iff_not]
  intro heq
  exact hnot (heq ▸ hmem)

/-- When the server has read the test command, its answer is there for the client. -/
theorem Delivered.toClient_ne_nil (hd : Delivered c) (h : Inv c)
    (hphase : c.server.phase = .handshake) (hplace : c.client.place = .recvAnswer)
    (hserver : c.toServer = []) : c.toClient ≠ [] := by
  have htoServer := hd.toServer
  rw [hserver, List.append_nil, hplace] at htoServer
  have hne : c.server.received ≠ [] := by
    intro hempty
    rw [hempty] at htoServer
    cases htoServer
  obtain ⟨k, hk⟩ := Nat.exists_eq_succ_of_ne_zero (unknown_pos hne (h.handshake hphase)).ne'
  have hanswer := hd.toClient
  rw [h.unread (Or.inr hplace), h.unsent (Or.inl hphase), List.append_nil, hk,
    List.replicate_succ, List.flatten_cons] at hanswer
  intro hnil
  rw [hnil] at hanswer
  have hunknown := (List.append_eq_nil_iff.mp hanswer.symm).1
  exact absurd hunknown (by decide +kernel)

/-- Without bytes on their way both parties are at a receive call. -/
theorem stuck_of_empty (h : Inv c) (hphase : c.server.phase = .handshake)
    (hplace : c.client.place = .recvLoop) (hclient : c.toClient = []) (hserver : c.toServer = []) :
    Stuck path c := by
  refine ⟨hphase, fun action hsome => ?_⟩
  obtain ⟨c', hc'⟩ := Option.isSome_iff_exists.mp hsome
  cases action with
  | clientFail => exact Or.inl rfl
  | serverFail => exact Or.inr rfl
  | clientSend sent =>
      obtain ⟨sendMsg, place, hsending, -⟩ := clientSend_cases hc'
      rw [hplace] at hsending
      cases hsending
  | clientRecv n =>
      obtain ⟨-, place, -, ⟨-, hexited, -⟩ | ⟨hn, hle, -⟩ | ⟨hpos, -, hle, -⟩⟩ :=
        clientRecv_cases h.noNul hc'
      · rw [hphase] at hexited
        cases hexited
      · rw [hclient, hn] at hle
        exact absurd hle (by decide)
      · rw [hclient, List.length_nil] at hle
        omega
  | serverRecv n sent =>
      obtain ⟨-, hpos, hle, -⟩ := serverRecv_cases h.toServer_noNul h.toServer_short hc'
      rw [hserver, List.length_nil] at hle
      omega
  | serverOpen opens =>
      have hsubscribed := (serverOpen_cases hc').1
      rw [hphase] at hsubscribed
      cases hsubscribed
  | serverEvent event =>
      have hmonitoring := (serverEvent_cases hc').1
      rw [hphase] at hmonitoring
      cases hmonitoring
  | serverEnd =>
      have hmonitoring := (serverEnd_cases hc').1
      rw [hphase] at hmonitoring
      cases hmonitoring

end Stuck

/-- The parties wait for each other exactly if the server has read the command, but not as
one chunk. -/
theorem stuck_iff {path : CStr} {fileStatSize : Int64} {actions : List Action} {c : Connection}
    (hrun : run (step path) (connected fileStatSize) actions = some c)
    (hdelivers : ∀ action ∈ actions, Delivers action) (hread : .clientRecv sRecvLen ∉ actions) :
    Stuck path c ↔
      c.client.place = .recvLoop ∧ c.toClient = [] ∧ subscribeCmd ∉ c.server.received ∧
        c.server.received.flatMap CStr.bytes = testCmd.bytes ++ subscribeCmd.bytes := by
  have h := inv_of_run hrun
  have hd := delivered_of_run hdelivers hrun
  have hoverread : c.client.overread = false := by
    rw [← Bool.not_eq_true, overread_iff hrun]
    exact hread
  have htoServer := hd.toServer
  constructor
  · intro hstuck
    have hserver := hstuck.toServer_eq_nil h
    have hsending := hstuck.sending_eq_none
    cases hplace : c.client.place with
    | sendTest =>
        rw [hplace] at hsending
        cases hsending
    | sendSubscribe =>
        rw [hplace] at hsending
        cases hsending
    | recvLoop =>
        have hclient := hstuck.toClient_eq_nil hoverread (by rw [hplace]; rfl)
        rw [hserver, List.append_nil, hplace] at htoServer
        exact ⟨rfl, hclient, h.handshake hstuck.1, htoServer⟩
    | recvAnswer =>
        have hclient := hstuck.toClient_eq_nil hoverread (by rw [hplace]; rfl)
        exact absurd hclient (hd.toClient_ne_nil h hstuck.1 hplace hserver)
  · rintro ⟨hplace, hclient, hnot, hreceived⟩
    have hserver : c.toServer = [] := by
      rw [hreceived, hplace] at htoServer
      exact List.append_right_eq_self.mp htoServer
    have hphase : c.server.phase = .handshake := by
      by_contra hne
      exact hnot (hd.asked hne)
    exact stuck_of_empty h hphase hplace hclient hserver

/-- The server reads the first three bytes of the test command, and the rest of it together
with the command. -/
theorem stuck_iff_sample : ∃ c, run (step (ofBuffer [0x61])) (connected 0)
    [.clientSend true, .serverRecv 3 true, .clientRecv 15, .clientSend true, .serverRecv 11 true,
      .clientRecv 15] = some c ∧ Stuck (ofBuffer [0x61]) c := by
  obtain ⟨c, hrun⟩ := Option.isSome_iff_exists.mp (show (run (step (ofBuffer [0x61]))
    (connected 0) [.clientSend true, .serverRecv 3 true, .clientRecv 15, .clientSend true,
      .serverRecv 11 true, .clientRecv 15]).isSome by decide +kernel)
  refine ⟨c, hrun, (stuck_iff hrun (by simp [Delivers]) (by simp [sRecvLen])).mpr ?_⟩
  have hend : (run (step (ofBuffer [0x61])) (connected 0)
      [.clientSend true, .serverRecv 3 true, .clientRecv 15, .clientSend true,
        .serverRecv 11 true, .clientRecv 15]).all (fun c =>
          c.client.place = .recvLoop ∧ c.toClient = [] ∧ subscribeCmd ∉ c.server.received ∧
            c.server.received.flatMap CStr.bytes = testCmd.bytes ++ subscribeCmd.bytes) := by
    decide +kernel
  rw [hrun] at hend
  simpa using hend

/-- No call of the handshake fails, and the server receives all bytes on their way. -/
def Whole (c : Connection) : Action → Prop
  | .serverRecv n sent => n = c.toServer.length ∧ sent = true
  | action => Delivers action

instance : DecidablePred Delivers
  | .clientSend sent => inferInstanceAs (Decidable (sent = true))
  | .serverRecv _ sent => inferInstanceAs (Decidable (sent = true))
  | .clientFail | .serverFail => inferInstanceAs (Decidable False)
  | .clientRecv _ | .serverOpen _ | .serverEvent _ | .serverEnd => inferInstanceAs (Decidable True)

instance (c : Connection) : DecidablePred (Whole c)
  | .serverRecv n sent => inferInstanceAs (Decidable (n = c.toServer.length ∧ sent = true))
  | .clientSend sent => inferInstanceAs (Decidable (Delivers (.clientSend sent)))
  | .clientRecv n => inferInstanceAs (Decidable (Delivers (.clientRecv n)))
  | .clientFail => inferInstanceAs (Decidable (Delivers .clientFail))
  | .serverOpen opens => inferInstanceAs (Decidable (Delivers (.serverOpen opens)))
  | .serverEvent event => inferInstanceAs (Decidable (Delivers (.serverEvent event)))
  | .serverEnd => inferInstanceAs (Decidable (Delivers .serverEnd))
  | .serverFail => inferInstanceAs (Decidable (Delivers .serverFail))

theorem Whole.delivers {c : Connection} {action : Action} (h : Whole c action) :
    Delivers action := by
  cases action with
  | serverRecv n sent => exact h.2
  | _ => exact h

/-- The states of the handshake when every read is whole, with a bound for the steps that
are left. -/
inductive Early (c : Connection) : Nat → Prop where
  | started (hplace : c.client.place = .sendTest) (hreceived : c.server.received = [])
      (hserver : c.toServer = []) (hclient : c.toClient = []) : Early c 19
  | tested (hplace : c.client.place = .recvAnswer) (hreceived : c.server.received = [])
      (hserver : c.toServer = testCmd.bytes) (hclient : c.toClient = []) : Early c 18
  | answered (hplace : c.client.place = .recvAnswer) (hreceived : c.server.received = [testCmd])
      (hserver : c.toServer = []) (hclient : c.toClient = unknownCmd) : Early c 17
  | read (hplace : c.client.place = .sendSubscribe) (hreceived : c.server.received = [testCmd])
      (hserver : c.toServer = []) (hclient : c.toClient.length ≤ 14) :
      Early c (c.toClient.length + 2)
  | asked (hplace : c.client.place = .recvLoop) (hreceived : c.server.received = [testCmd])
      (hserver : c.toServer = subscribeCmd.bytes) (hclient : c.toClient.length ≤ 14) :
      Early c (c.toClient.length + 1)

def Progress (c : Connection) (k : Nat) : Prop :=
  c.server.phase = .handshake ∧ c.client.overread = false ∧ Early c k ∨
    c.server.phase ≠ .handshake ∧ c.server.received = [testCmd, subscribeCmd]

theorem length_unknownCmd : unknownCmd.length = 15 := by decide +kernel

theorem Early.pos {c : Connection} {k : Nat} (h : Early c k) : 0 < k := by
  cases h <;> omega

theorem Early.length_le {c : Connection} {k : Nat} (h : Early c k) : c.toClient.length ≤ 15 := by
  cases h with
  | started _ _ _ hclient | tested _ _ _ hclient =>
      rw [hclient]
      exact Nat.zero_le _
  | answered _ _ _ hclient => rw [hclient, length_unknownCmd]
  | read _ _ _ hclient | asked _ _ _ hclient => omega

section Early

variable {c c' : Connection} {k : Nat}

theorem Early.clientSend (hearly : Early c k) (hphase : c.server.phase = .handshake)
    (hoverread : c.client.overread = false) (hc' : FileObserver.clientSend c true = some c') :
    ∃ k' < k, Progress c' k' := by
  obtain ⟨sendMsg, place, hsending, rfl⟩ := clientSend_cases hc'
  cases hearly with
  | started hplace hreceived hserver hclient =>
      rw [hplace] at hsending
      cases hsending
      refine ⟨18, by decide, Or.inl ⟨hphase, hoverread, .tested rfl hreceived ?_ hclient⟩⟩
      rw [hserver]
      rfl
  | read hplace hreceived hserver hclient =>
      rw [hplace] at hsending
      cases hsending
      refine ⟨_, Nat.lt_succ_self _,
        Or.inl ⟨hphase, hoverread, .asked rfl hreceived ?_ hclient⟩⟩
      rw [hserver]
      rfl
  | tested hplace | answered hplace | asked hplace =>
      rw [hplace] at hsending
      cases hsending

theorem Early.clientRecv (hearly : Early c k) (h : Inv c) (hphase : c.server.phase = .handshake)
    (hoverread : c.client.overread = false) {n : Nat}
    (hc' : FileObserver.clientRecv c n = some c') : ∃ k' < k, Progress c' k' := by
  obtain ⟨-, place, hplace', ⟨-, hexited, -⟩ | ⟨hn, hle, -⟩ |
    ⟨hpos, -, hle, recvMsg, hbytes, rfl⟩⟩ := clientRecv_cases h.noNul hc'
  · rw [hphase] at hexited
    cases hexited
  · rw [hn] at hle
    exact absurd (hle.trans hearly.length_le) (by decide)
  · cases hearly with
    | started hplace | read hplace =>
        rw [hplace] at hplace'
        cases hplace'
    | tested hplace hreceived hserver hclient =>
        rw [hclient, List.length_nil] at hle
        omega
    | answered hplace hreceived hserver hclient =>
        rw [hplace] at hplace'
        cases hplace'
        have hlength : (c.toClient.drop n).length ≤ 14 := by
          rw [List.length_drop, hclient, length_unknownCmd]
          omega
        exact ⟨_, Nat.lt_of_le_of_lt (Nat.add_le_add_right hlength 2) (by decide),
          Or.inl ⟨hphase, hoverread, .read rfl hreceived hserver hlength⟩⟩
    | asked hplace hreceived hserver hclient =>
        rw [hplace] at hplace'
        cases hplace'
        have hdrop : (c.toClient.drop n).length < c.toClient.length := by
          rw [List.length_drop]
          omega
        exact ⟨_, Nat.add_lt_add_right hdrop 1,
          Or.inl ⟨hphase, hoverread, .asked rfl hreceived hserver (hdrop.le.trans hclient)⟩⟩

theorem Early.serverRecv (hearly : Early c k) (h : Inv c)
    (hoverread : c.client.overread = false)
    (hc' : FileObserver.serverRecv c c.toServer.length true = some c') :
    ∃ k' < k, Progress c' k' := by
  obtain ⟨-, hpos, -, buf, hbytes, rfl⟩ :=
    serverRecv_cases h.toServer_noNul h.toServer_short hc'
  rw [List.take_length] at hbytes
  cases hearly with
  | started hplace hreceived hserver | answered hplace hreceived hserver
  | read hplace hreceived hserver =>
      rw [hserver] at hpos
      cases hpos
  | tested hplace hreceived hserver hclient =>
      obtain rfl : buf = testCmd := CStr.ext_bytes (hbytes.trans hserver)
      refine ⟨17, by decide, Or.inl ⟨rfl, hoverread, .answered hplace ?_ ?_ ?_⟩⟩
      · rw [hreceived]
        rfl
      · exact List.drop_length
      · rw [hclient]
        rfl
  | asked hplace hreceived hserver hclient =>
      obtain rfl : buf = subscribeCmd := CStr.ext_bytes (hbytes.trans hserver)
      have hnext : (nextOf subscribeCmd true).phase ≠ .handshake := by decide
      refine ⟨0, Nat.succ_pos _, Or.inr ⟨hnext, ?_⟩⟩
      rw [hreceived]
      rfl

theorem Early.step {path : CStr} {action : Action} (hearly : Early c k) (h : Inv c)
    (hphase : c.server.phase = .handshake) (hoverread : c.client.overread = false)
    (hwhole : Whole c action) (hc' : FileObserver.step path c action = some c') :
    ∃ k' < k, Progress c' k' := by
  cases action with
  | clientSend sent =>
      obtain rfl : sent = true := hwhole
      exact hearly.clientSend hphase hoverread hc'
  | clientRecv n => exact hearly.clientRecv h hphase hoverread hc'
  | serverRecv n sent =>
      obtain ⟨rfl, rfl⟩ := hwhole
      exact hearly.serverRecv h hoverread hc'
  | serverOpen opens =>
      have hsubscribed := (serverOpen_cases hc').1
      rw [hphase] at hsubscribed
      cases hsubscribed
  | serverEvent event =>
      have hmonitoring := (serverEvent_cases hc').1
      rw [hphase] at hmonitoring
      cases hmonitoring
  | serverEnd =>
      have hmonitoring := (serverEnd_cases hc').1
      rw [hphase] at hmonitoring
      cases hmonitoring
  | clientFail => exact hwhole.elim
  | serverFail => exact hwhole.elim

end Early

/-- The induction is on the run. Each step of the handshake takes one off the bound. -/
theorem progress_of_run {path : CStr} {fileStatSize : Int64} {actions : List Action}
    {c : Connection} (hrun : GuardedRun (step path) Whole (connected fileStatSize) actions c) :
    Inv c ∧ ∃ k, Progress c k ∧
      (c.server.phase = .handshake → actions.length + k ≤ 19) := by
  induction hrun with
  | nil =>
      exact ⟨inv_connected _, 19, Or.inl ⟨rfl, rfl, .started rfl rfl rfl rfl⟩,
        fun _ => Nat.le_refl _⟩
  | snoc hrun hwhole hstep ih =>
      obtain ⟨h, k, hprogress, hlength⟩ := ih
      refine ⟨h.step hstep, ?_⟩
      rcases hprogress with ⟨hphase, hoverread, hearly⟩ | ⟨hphase, hreceived⟩
      · obtain ⟨k', hlt, hprogress'⟩ := hearly.step h hphase hoverread hwhole hstep
        refine ⟨k', hprogress', fun _ => ?_⟩
        have hle := hlength hphase
        rw [List.length_append, List.length_singleton]
        omega
      · obtain ⟨hphase', hreceived'⟩ := received_of_step h hphase hstep
        exact ⟨0, Or.inr ⟨hphase', hreceived'.trans hreceived⟩, fun hp => absurd hp hphase'⟩

/-- When every read of the server is whole, no order of steps keeps the client from its
subscription: in the handshake one of the parties can go on, at most 18 steps are taken in
it, and then the client receives one answer and the messages. -/
theorem subscribes_of_whole {path : CStr} {fileStatSize : Int64} {actions : List Action}
    {c : Connection} (hrun : GuardedRun (step path) Whole (connected fileStatSize) actions c) :
    (c.server.phase = .handshake → actions.length ≤ 18 ∧
      ∃ action, Whole c action ∧ (step path c action).isSome) ∧
    (c.server.phase ≠ .handshake → c.server.received = [testCmd, subscribeCmd] ∧
      c.client.printed.flatMap CStr.bytes ++ c.toClient =
        unknownCmd ++ c.server.monitor.sent) := by
  obtain ⟨h, k, hprogress, hlength⟩ := progress_of_run hrun
  have hd := delivered_of_run
    (hrun.forall_mem (p := Delivers) fun _ _ => Whole.delivers) hrun.run_eq
  rcases hprogress with ⟨hphase, hoverread, hearly⟩ | ⟨hphase, hreceived⟩
  · refine ⟨fun _ => ⟨?_, ?_⟩, fun hp => absurd hphase hp⟩
    · have hle := hlength hphase
      have hpos := hearly.pos
      omega
    · have hsends : ∀ {sendMsg place}, c.client.place.sending = some (sendMsg, place) →
          (step path c (.clientSend true)).isSome := by
        intro sendMsg place hsending
        rw [step, clientSend, hsending]
        rfl
      cases hearly with
      | started hplace | read hplace =>
          exact ⟨.clientSend true, rfl, hsends (by rw [hplace]; rfl)⟩
      | answered hplace hreceived hserver hclient =>
          refine ⟨.clientRecv 1, trivial, clientRecv_isSome (by rw [hplace]; rfl) hoverread ?_⟩
          rw [hclient]
          decide +kernel
      | tested hplace hreceived hserver | asked hplace hreceived hserver =>
          refine ⟨.serverRecv c.toServer.length true, ⟨rfl, rfl⟩,
            serverRecv_isSome h hphase ?_ (Nat.le_refl _) true⟩
          rw [hserver]
          decide
  · refine ⟨fun hp => absurd hp hphase, fun _ => ⟨hreceived, ?_⟩⟩
    have hunknown : unknown [testCmd, subscribeCmd] = 1 := by decide
    rw [hd.toClient, hreceived, hunknown, List.replicate_one, List.flatten_singleton]

/-- The client reads the answer in two parts, the second one behind its second command. -/
def wholeActions : List Action :=
  [.clientSend true, .serverRecv 5 true, .clientRecv 4, .clientSend true, .clientRecv 11,
    .serverRecv 9 true]

theorem subscribes_of_whole_sample : ∃ c,
    GuardedRun (step (ofBuffer [0x61])) Whole (connected 0) wholeActions c ∧
    c.server.phase = .subscribed ∧ c.server.received = [testCmd, subscribeCmd] ∧
    c.client.printed.flatMap CStr.bytes ++ c.toClient =
      unknownCmd ++ c.server.monitor.sent := by
  obtain ⟨c, hrun⟩ := Option.isSome_iff_exists.mp (show (run (fun c action =>
    if Whole c action then step (ofBuffer [0x61]) c action else none) (connected 0)
    wholeActions).isSome by decide +kernel)
  have hphase : (run (fun c action =>
      if Whole c action then step (ofBuffer [0x61]) c action else none) (connected 0)
      wholeActions).all (fun c => c.server.phase = .subscribed) := by
    decide +kernel
  rw [hrun] at hphase
  have hsubscribed : c.server.phase = .subscribed := by simpa using hphase
  have hguarded := guardedRun_iff.mpr hrun
  exact ⟨c, hguarded, hsubscribed,
    (subscribes_of_whole hguarded).2 (by rw [hsubscribed]; decide)⟩

end CHomework.FileObserver
