import Bldc.Command.Locality
import Bldc.Drive.Measure
import Mathlib.Logic.Function.Basic

/-!
# Where replies go

The threads of the four interfaces share `send_func`, and the CAN thread keeps the
sender of the last buffer in `rx_buffer_last_id`. A thread writes them when it takes
a packet, and whoever sends later, a handler, `detect_thread` or `sample_send_thread`,
reads what it then finds there.
-/

namespace Bldc.Command

open Flash Link Foundation

/-! ## Requests -/

/-- Who is at the other end of an interface. -/
inductive Peer where
  | usb
  | uart
  | can (id : Nat)
  | nrf
  deriving DecidableEq, Repr

/-- The function a thread passes to `commands_set_send_func` for the packets of a peer. -/
def Peer.sendFunc : Peer → SendFunc
  | usb => .usb
  | uart => .uart
  | can _ => .can
  | nrf => .nrf

/-- The threads that answer later. -/
inductive Task where
  | detect
  | sample
  deriving DecidableEq, Repr

/-- What a thread does with a buffer that concerns the peers. A relayed buffer comes with
the controller that sent it and whether it has more to send. -/
inductive Action where
  | reply (bytes : List Byte)
  | relay (id : Nat) (bytes : List Byte) (more : Bool)
  | signal (task : Task)
  | transmit (frames : List CanTxFrame)
  deriving DecidableEq, Repr

/-- A buffer that a thread has taken: what is still to be written to `rx_buffer_last_id`,
whether `send_func` is still to be written, and what is left to do after that. -/
structure Job where
  peer : Peer
  lastId : Option Nat
  setsSendFunc : Bool
  actions : List Action

/-- What a handler meets: the device, and the packets that the routines it calls print
or send to the application. -/
structure Moment where
  dev : Device
  printed : Effect → List (List Byte)

def Effect.actions (printed : Effect → List (List Byte)) : Effect → List Action
  | .reply bytes => [.reply bytes]
  | .detectMotorParam _ _ _ => [.signal .detect]
  | .samplePrintData _ _ _ => [.signal .sample]
  | .canTransmit frames => [.transmit frames]
  | e => (printed e).map .reply

/-- `commands_process_packet`. -/
def Moment.actions (m : Moment) (data : Buffer) (len : Word) : List Action :=
  (commandsProcessPacket m.dev data len).flatMap (Effect.actions m.printed)

/-- `process_packet` of USB and UART, and the two cases of `rx_thread`. -/
def Moment.job (m : Moment) (peer : Peer) (data : Buffer) (len : Word) : Job where
  peer
  lastId := none
  setsSendFunc := true
  actions := m.actions data len

/-- What `cancom_process_thread` does with a buffer. -/
def Moment.deliver (m : Moment) (more : Bool) (delivery : Delivery) : List Action :=
  if delivery.send then [.relay delivery.lastId (bytesOf delivery.data delivery.len) more]
  else m.actions delivery.data (BitVec.ofNat 32 delivery.len)

/-- The frame closes a buffer for this controller. -/
def closesBuffer (s : CanState) (rxmsg : CanRxFrame) : Prop :=
  rxmsg.ide = true ∧ (rxmsg.id = 255 ∨ rxmsg.id = s.controllerId) ∧
    (rxmsg.cmd = some .processRxBuffer ∨ rxmsg.cmd = some .processShortBuffer)

instance (s : CanState) (rxmsg : CanRxFrame) : Decidable (closesBuffer s rxmsg) :=
  inferInstanceAs (Decidable (_ ∧ _ ∧ _))

/-- What the CAN thread has to do for a frame. The function is set only for a buffer that is
to be handled here. -/
def Moment.canJob (m : Moment) (s : CanState) (arrival : Arrival) (more : Bool) : Option Job :=
  let deliveries := (cancomProcess.step s arrival).2.filterMap CanEffect.delivery
  if closesBuffer s arrival.rxmsg then
    some
      { peer := .can (arrival.rxmsg.data8 0).toNat
        -- written before the checksum is compared
        lastId := some (arrival.rxmsg.data8 0).toNat
        setsSendFunc := deliveries.any (!·.send)
        actions := deliveries.flatMap (m.deliver more) }
  else none

/-! ## The threads -/

/-- `detect_thread` or `sample_send_thread`: the request it has been signalled for, and
the one it is working on. -/
structure Worker where
  event : Option Peer
  running : Option Peer

/-- The shared variables, the threads, and the requests that were forwarded over CAN
and whose answers have not all come back, with the controllers they went to. -/
structure Router where
  can : CanState
  jobs : SendFunc → Option Job
  workers : Task → Worker
  forwarded : List (Nat × Peer)

/-- A call of `commands_send_packet`: whose request it answers, and where the packet goes,
which is nowhere while `send_func` is null. -/
structure Sent where
  request : Option Peer
  dest : Option Peer
  bytes : List Byte
  deriving DecidableEq, Repr

/-- A packet for one of the threads, its next action, and the workers. -/
inductive RouterInput where
  | usb (m : Moment) (data : Buffer) (len : Word)
  | uart (m : Moment) (data : Buffer) (len : Word)
  | nrf (m : Moment) (data : Buffer) (len : Word)
  | can (m : Moment) (arrival : Arrival) (more : Bool)
  | thread (f : SendFunc)
  | wake (task : Task)
  | detectSend (param : Drive.MotorParam)
  | sampleSend (sample : List Byte) (more : Bool)

/-- The reply of `detect_thread`. -/
def detectReply (param : Drive.MotorParam) : List Byte :=
  let (intLimit, couplingK) := if param.ok then (param.intLimit, param.bemfCouplingK) else (0, 0)
  CommPacketId.detectMotorParam.code ::
    (bufferAppendInt32 (truncate (intLimit * 1000)) ++
      bufferAppendInt32 (truncate (couplingK * 1000)) ++
      param.hallTable.map (BitVec.ofInt 8) ++ [BitVec.ofInt 8 param.hallRes])

namespace Router

variable (s : Router)

/-- Every thread waits. -/
def boot (can : CanState) : Router where
  can
  jobs _ := none
  workers _ := ⟨none, none⟩
  forwarded := []

/-- Where `send_func` sends to. `send_packet_wrapper` of `comm_can` reads
`rx_buffer_last_id`. -/
def dest : Option Peer :=
  s.can.sendFunc.map fun
    | .usb => .usb
    | .uart => .uart
    | .can => .can s.can.rxBufferLastId
    | .nrf => .nrf

/-- `commands_send_packet`. -/
def commandsSendPacket (request : Option Peer) (bytes : List Byte) : List Sent :=
  [⟨request, s.dest, bytes⟩]

def setJob (f : SendFunc) (job : Option Job) : Router :=
  { s with jobs := Function.update s.jobs f job }

/-- A thread that is busy takes no packet. -/
def take (f : SendFunc) (job : Job) : Router :=
  match s.jobs f with
  | none => s.setJob f job
  | some _ => s

/-- The variables of the CAN module, with the controller id that is now configured. -/
def canNow (m : Moment) : CanState := { s.can with controllerId := m.dev.appconf.controllerId }

@[simp] theorem canNow_sendFunc (m : Moment) : (s.canNow m).sendFunc = s.can.sendFunc := rfl

/-- A frame. The two variables are written in steps of their own. -/
def takeFrame (m : Moment) (arrival : Arrival) (more : Bool) : Router :=
  match s.jobs .can with
  | none =>
      let next := (cancomProcess.step (s.canNow m) arrival).1
      { s with
        can := { next with rxBufferLastId := s.can.rxBufferLastId, sendFunc := s.can.sendFunc }
      }.setJob .can (m.canJob (s.canNow m) arrival more)
  | some _ => s

/-- The forwarded request that a buffer of a controller answers. -/
def answered (id : Nat) : Option (Nat × Peer) :=
  s.forwarded.find? fun request => request.1 = id ∨ request.1 = 255

def setWorker (task : Task) (worker : Worker) : Router :=
  { s with workers := Function.update s.workers task worker }

/-- An action in the handling of a packet of a peer. -/
def act (peer : Peer) : Action → Router × List Sent
  | .reply bytes => (s, s.commandsSendPacket (some peer) bytes)
  | .relay id bytes more =>
      let request := s.answered id
      ({ s with forwarded := s.forwarded.filter fun r => more ∨ some r ≠ request },
        s.commandsSendPacket (request.map Prod.snd) bytes)
  | .signal task => (s.setWorker task { s.workers task with event := some peer }, [])
  | .transmit frames =>
      let requests := frames.map fun tx => (tx.eid.toNat % 256, peer)
      ({ s with forwarded := requests ++ s.forwarded }, [])

/-- The thread of an interface has done something and is left with this. -/
def leave (f : SendFunc) (job : Job) : Router :=
  s.setJob f (if job.setsSendFunc = false ∧ job.actions = [] then none else some job)

/-- The next thing that the thread of an interface does. -/
def runThread (f : SendFunc) : Router × List Sent :=
  match s.jobs f with
  | none => (s, [])
  | some ⟨peer, some id, sets, actions⟩ =>
      ({ s with can.rxBufferLastId := id }.leave f ⟨peer, none, sets, actions⟩, [])
  | some ⟨peer, none, true, actions⟩ =>
      ({ s with can.sendFunc := some f }.leave f ⟨peer, none, false, actions⟩, [])
  | some ⟨_, none, false, []⟩ => (s, [])
  | some ⟨peer, none, false, action :: actions⟩ =>
      let r := s.act peer action
      (r.1.leave f ⟨peer, none, false, actions⟩, r.2)

/-- A worker sends a packet, its last one or not. -/
def work (task : Task) (bytes : List Byte) (more : Bool) : Router × List Sent :=
  match (s.workers task).running with
  | none => (s, [])
  | some peer =>
      (s.setWorker task { s.workers task with running := if more then some peer else none },
        s.commandsSendPacket (some peer) bytes)

/-- A worker that waits takes the event it has been sent. -/
def wake (task : Task) : Router :=
  match s.workers task with
  | ⟨some peer, none⟩ => s.setWorker task ⟨none, some peer⟩
  | _ => s

def step : RouterInput → Router × List Sent
  | .usb m data len => (s.take .usb (m.job .usb data len), [])
  | .uart m data len => (s.take .uart (m.job .uart data len), [])
  | .nrf m data len => (s.take .nrf (m.job .nrf data len), [])
  | .can m arrival more => (s.takeFrame m arrival more, [])
  | .thread f => s.runThread f
  | .wake task => (s.wake task, [])
  | .detectSend param => s.work .detect (detectReply param) false
  | .sampleSend sample more => s.work .sample (CommPacketId.samplePrint.code :: sample) more

end Router

def router : Machine Router RouterInput Sent where
  step := Router.step

/-! ## A frame that nobody interrupts

Without other threads, taking a frame and the writes that follow leave the variables as
`cancom_process_thread` alone does. -/

/-- The writes that a job of the CAN thread begins with. -/
def Job.writes (job : Job) : List RouterInput :=
  .thread .can :: if job.setsSendFunc then [.thread .can] else []

section Frame

variable {can : CanState} {arrival : Arrival}

theorem processStatus_sendFunc (can : CanState) (rxTime : Nat) (rxmsg : CanRxFrame) :
    (can.processStatus rxTime rxmsg).rxBufferLastId = can.rxBufferLastId ∧
      (can.processStatus rxTime rxmsg).sendFunc = can.sendFunc := by
  unfold CanState.processStatus
  split <;> exact ⟨rfl, rfl⟩

theorem processAddressed_sendFunc {rxmsg : CanRxFrame} (hlong : rxmsg.cmd ≠ some .processRxBuffer)
    (hshort : rxmsg.cmd ≠ some .processShortBuffer) :
    (can.processAddressed rxmsg).1.rxBufferLastId = can.rxBufferLastId ∧
      (can.processAddressed rxmsg).1.sendFunc = can.sendFunc := by
  unfold CanState.processAddressed
  split
  case h_7 =>
    dsimp only
    split <;> exact ⟨rfl, rfl⟩
  case h_8 hcmd => exact absurd hcmd hlong
  case h_9 hcmd => exact absurd hcmd hshort
  all_goals exact ⟨rfl, rfl⟩

theorem step_of_not_closesBuffer (h : ¬closesBuffer can arrival.rxmsg) :
    (cancomProcess.step can arrival).1.rxBufferLastId = can.rxBufferLastId ∧
      (cancomProcess.step can arrival).1.sendFunc = can.sendFunc := by
  simp only [cancomProcess]
  split
  next hide =>
    have hstatus := processStatus_sendFunc (if arrival.rxmsg.id = 255 ∨
      arrival.rxmsg.id = can.controllerId then can.processAddressed arrival.rxmsg else (can, [])).1
      arrival.rxTime arrival.rxmsg
    rw [hstatus.1, hstatus.2]
    split
    next haddressed =>
      apply processAddressed_sendFunc
      · exact fun hcmd => h ⟨hide, haddressed, .inl hcmd⟩
      · exact fun hcmd => h ⟨hide, haddressed, .inr hcmd⟩
    next => exact ⟨rfl, rfl⟩
  next => exact ⟨rfl, rfl⟩

theorem hand_sendFunc (commandsSend : Bool) (data : Buffer) (len : Nat) :
    (can.hand commandsSend data len).1.rxBufferLastId = can.rxBufferLastId ∧
      (can.hand commandsSend data len).1.sendFunc =
        if ((can.hand commandsSend data len).2.filterMap CanEffect.delivery).any (!·.send)
        then some .can else can.sendFunc := by
  cases commandsSend <;> exact ⟨rfl, rfl⟩

theorem step_of_closesBuffer (h : closesBuffer can arrival.rxmsg) :
    (cancomProcess.step can arrival).1.rxBufferLastId = (arrival.rxmsg.data8 0).toNat ∧
      (cancomProcess.step can arrival).1.sendFunc =
        if ((cancomProcess.step can arrival).2.filterMap CanEffect.delivery).any (!·.send)
        then some .can else can.sendFunc := by
  obtain ⟨hide, haddressed, hcmd⟩ := h
  simp only [cancomProcess, hide, haddressed, if_true]
  have hstatus := processStatus_sendFunc (can.processAddressed arrival.rxmsg).1 arrival.rxTime
    arrival.rxmsg
  rw [hstatus.1, hstatus.2]
  rcases hcmd with hcmd | hcmd
  · simp only [CanState.processAddressed, hcmd, CanState.processRxBuffer]
    split
    next => exact ⟨rfl, rfl⟩
    next =>
      split
      next => exact hand_sendFunc _ _ _
      next => exact ⟨rfl, rfl⟩
  · simp only [CanState.processAddressed, hcmd, CanState.processShortBuffer]
    exact hand_sendFunc _ _ _

theorem eq_of_written {next : CanState} {id : Nat} {f : Option SendFunc}
    (h : next.rxBufferLastId = id ∧ next.sendFunc = f) :
    { next with rxBufferLastId := id, sendFunc := f } = next := by
  obtain ⟨rfl, rfl⟩ := h
  rfl

theorem run_can_uninterrupted {s : Router} (hidle : s.jobs .can = none) (m : Moment)
    (arrival : Arrival) (more : Bool) :
    (router.run s (.can m arrival more ::
        (m.canJob (s.canNow m) arrival more).elim [] Job.writes)).1.can =
      (cancomProcess.step (s.canNow m) arrival).1 := by
  by_cases hcloses : closesBuffer (s.canNow m) arrival.rxmsg
  · have hstep := eq_of_written (step_of_closesBuffer hcloses)
    rw [← hstep]
    simp only [Moment.canJob, if_pos hcloses, Option.elim, Job.writes]
    split
    next hsets =>
      simp [router, Router.step, Router.takeFrame, hidle, Router.setJob, Router.runThread,
        Router.leave, Moment.canJob, hcloses, hsets]
    next hsets =>
      simp [router, Router.step, Router.takeFrame, hidle, Router.setJob, Router.runThread,
        Router.leave, Moment.canJob, hcloses, hsets]
  · have hstep := eq_of_written (step_of_not_closesBuffer hcloses)
    have hjob : m.canJob (s.canNow m) arrival more = none := if_neg hcloses
    rw [hjob, ← hstep]
    simp only [Option.elim, router, Machine.run_cons, Machine.run_nil, Router.step,
      Router.takeFrame, hidle, Router.setJob]
    rfl

end Frame

/-! ## Open requests -/

def Action.IsRelay : Action → Prop
  | relay _ _ _ => True
  | _ => False

/-- The variables have been written for the packet, and its handler is not done. -/
def Job.Open (job : Job) : Prop :=
  job.lastId = none ∧ job.setsSendFunc = false ∧ ∃ action ∈ job.actions, ¬action.IsRelay

/-- A request of the peer is being handled, or is going to be answered later. -/
def Router.Open (s : Router) (peer : Peer) : Prop :=
  (∃ f job, s.jobs f = some job ∧ job.Open ∧ job.peer = peer) ∨
    (∃ task, (s.workers task).event = some peer ∨ (s.workers task).running = some peer) ∨
    ∃ id, (id, peer) ∈ s.forwarded

/-- A thread writes `send_func` for another interface, or `rx_buffer_last_id` for another
controller, than those of an open request. -/
def Router.Redirects (s : Router) : RouterInput → Prop
  | .thread f =>
      ∃ job peer, s.jobs f = some job ∧ s.Open peer ∧
        match job.lastId with
        | some id => peer.sendFunc = .can ∧ peer ≠ .can id
        | none => job.setsSendFunc = true ∧ peer.sendFunc ≠ f
  | _ => False

/-- Every reply goes to the peer whose request it answers. -/
def RepliesReturn (sent : List Sent) : Prop :=
  ∀ packet ∈ sent, ∀ peer, packet.request = some peer → packet.dest = some peer

/-! ## The invariant -/

/-- What the thread of an interface knows about its job. -/
structure Job.Fits (rxBufferLastId : Nat) (f : SendFunc) (job : Job) : Prop where
  own : job.peer.sendFunc = f
  sender : ∀ id, job.lastId = some id → job.peer = .can id
  named : ∀ id, job.lastId = none → job.peer = .can id → rxBufferLastId = id
  relays : job.lastId ≠ none → job.setsSendFunc = false → ∀ action ∈ job.actions, action.IsRelay

/-- The shared variables are those of every open request. -/
structure Router.Routed (s : Router) : Prop where
  fits : ∀ f job, s.jobs f = some job → job.Fits s.can.rxBufferLastId f
  aims : ∀ peer, s.Open peer → s.dest = some peer

namespace Router

variable {s : Router}

theorem dest_eq_some {peer : Peer} :
    s.dest = some peer ↔
      s.can.sendFunc = some peer.sendFunc ∧ ∀ id, peer = .can id → s.can.rxBufferLastId = id := by
  unfold dest
  cases s.can.sendFunc with
  | none => simp
  | some f => cases f <;> cases peer <;> simp [Peer.sendFunc]

theorem routed_boot (can : CanState) : (boot can).Routed := by
  constructor
  · intro f job hjob
    cases hjob
  · rintro peer (⟨f, job, hjob, -⟩ | ⟨task, hevent | hrunning⟩ | ⟨id, hid⟩)
    · cases hjob
    · cases hevent
    · cases hrunning
    · cases hid

/-- Nothing is redirected and no request opened. -/
structure Settles (s t : Router) : Prop where
  sendFunc : t.can.sendFunc = s.can.sendFunc
  rxBufferLastId : t.can.rxBufferLastId = s.can.rxBufferLastId
  jobs : t.jobs = s.jobs
  opened : ∀ peer, t.Open peer → s.Open peer

theorem Settles.dest {t : Router} (h : Settles s t) : t.dest = s.dest := by
  unfold Router.dest
  rw [h.sendFunc, h.rxBufferLastId]

theorem Routed.settles {t : Router} (hs : s.Routed) (h : Settles s t) : t.Routed := by
  constructor
  · rw [h.jobs, h.rxBufferLastId]
    exact hs.fits
  · intro peer hpeer
    rw [h.dest]
    exact hs.aims peer (h.opened peer hpeer)

/-- A thread gets another job. -/
theorem Routed.setJob {f : SendFunc} {job : Option Job} (hs : s.Routed)
    (hfits : ∀ j, job = some j → j.Fits s.can.rxBufferLastId f)
    (hopen : ∀ j, job = some j → j.Open → s.dest = some j.peer) : (s.setJob f job).Routed := by
  constructor
  · intro f' j hj
    by_cases hf : f' = f
    · subst hf
      exact hfits j (by simpa [Router.setJob] using hj)
    · exact hs.fits f' j (by simpa [Router.setJob, hf] using hj)
  · rintro peer (⟨f', j, hj, hj', rfl⟩ | hlater)
    · by_cases hf : f' = f
      · subst hf
        exact hopen j (by simpa [Router.setJob] using hj) hj'
      · exact hs.aims _ (.inl ⟨f', j, by simpa [Router.setJob, hf] using hj, hj', rfl⟩)
    · exact hs.aims peer (.inr hlater)

theorem Routed.leave {f : SendFunc} {job : Job} (hs : s.Routed)
    (hfits : job.Fits s.can.rxBufferLastId f) (hopen : job.Open → s.dest = some job.peer) :
    (s.leave f job).Routed := by
  have hleft : ∀ j, (if job.setsSendFunc = false ∧ job.actions = [] then none else some job) =
      some j → job = j := by
    intro j hj
    split at hj
    next => cases hj
    next => exact Option.some.inj hj
  apply hs.setJob
  · rintro j hj
    exact hleft j hj ▸ hfits
  · rintro j hj
    exact hleft j hj ▸ hopen

/-! ## Taking packets -/

theorem Routed.take (hs : s.Routed) (m : Moment) {peer : Peer} (hpeer : peer.sendFunc ≠ .can)
    (data : Buffer) (len : Word) : (s.take peer.sendFunc (m.job peer data len)).Routed := by
  unfold Router.take
  split
  next =>
    apply hs.setJob
    · rintro j ⟨⟩
      refine ⟨rfl, nofun, fun id _ hid => ?_, fun hnone => absurd rfl hnone⟩
      obtain rfl : peer = .can id := hid
      exact absurd rfl hpeer
    · rintro j ⟨⟩ hopen
      cases hopen.2.1
  next => exact hs

/-- A buffer that a frame closes is relayed or handled. -/
theorem isRelay_of_canJob {m : Moment} {can : CanState} {arrival : Arrival} {more : Bool} {j : Job}
    (hj : m.canJob can arrival more = some j) (hsets : j.setsSendFunc = false) :
    ∀ action ∈ j.actions, action.IsRelay := by
  unfold Moment.canJob at hj
  split at hj
  next =>
    obtain rfl := Option.some.inj hj
    intro action haction
    obtain ⟨delivery, hdelivery, haction⟩ := List.mem_flatMap.1 haction
    have hsend : delivery.send = true := by
      simpa using List.any_eq_false.1 hsets delivery hdelivery
    rw [Moment.deliver, if_pos hsend, List.mem_singleton] at haction
    subst haction
    trivial
  next => cases hj

theorem fits_canJob {m : Moment} {can : CanState} {arrival : Arrival} {more : Bool} {j : Job}
    (hj : m.canJob can arrival more = some j) (id : Nat) : j.Fits id .can ∧ ¬j.Open := by
  have hrelays := isRelay_of_canJob hj
  unfold Moment.canJob at hj
  split at hj
  next =>
    obtain rfl := Option.some.inj hj
    exact ⟨⟨rfl, fun _ h => congrArg Peer.can (Option.some.inj h), nofun, fun _ => hrelays⟩, nofun⟩
  next => cases hj

theorem Routed.takeFrame (hs : s.Routed) (m : Moment) (arrival : Arrival) (more : Bool) :
    (s.takeFrame m arrival more).Routed := by
  unfold Router.takeFrame
  split
  next =>
    apply Routed.setJob
    · exact hs.settles ⟨rfl, rfl, rfl, fun _ h => h⟩
    · intro j hj
      exact (fits_canJob hj _).1
    · intro j hj hopen
      exact absurd hopen (fits_canJob hj 0).2
  next => exact hs

/-! ## The threads of the interfaces -/

theorem answered_mem {id : Nat} {request : Nat × Peer} (h : s.answered id = some request) :
    s.Open request.2 :=
  .inr (.inr ⟨request.1, List.mem_of_find?_eq_some h⟩)

theorem settles_setWorker {task : Task} {worker : Worker}
    (h : ∀ peer, worker.event = some peer ∨ worker.running = some peer → s.Open peer) :
    Settles s (s.setWorker task worker) := by
  refine ⟨rfl, rfl, rfl, ?_⟩
  rintro peer (hjob | ⟨task', hpeer⟩ | hforwarded)
  · exact .inl hjob
  · by_cases htask : task' = task
    · subst htask
      exact h peer (by simpa [setWorker] using hpeer)
    · exact .inr (.inl ⟨task', by simpa [setWorker, htask] using hpeer⟩)
  · exact .inr (.inr hforwarded)

theorem settles_act {peer : Peer} {action : Action} (hopen : ¬action.IsRelay → s.Open peer) :
    Settles s (s.act peer action).1 := by
  cases action with
  | reply bytes => exact ⟨rfl, rfl, rfl, fun _ h => h⟩
  | relay id bytes more =>
      refine ⟨rfl, rfl, rfl, ?_⟩
      rintro p (hjob | hworker | ⟨id', hid'⟩)
      · exact .inl hjob
      · exact .inr (.inl hworker)
      · exact .inr (.inr ⟨id', List.mem_of_mem_filter hid'⟩)
  | signal task =>
      apply settles_setWorker
      rintro p (⟨⟨⟩⟩ | hrunning)
      · exact hopen id
      · exact .inr (.inl ⟨task, .inr hrunning⟩)
  | transmit frames =>
      refine ⟨rfl, rfl, rfl, ?_⟩
      rintro p (hjob | hworker | ⟨id', hid'⟩)
      · exact .inl hjob
      · exact .inr (.inl hworker)
      · rcases List.mem_append.1 hid' with hnew | hold
        · obtain ⟨tx, -, htx⟩ := List.mem_map.1 hnew
          cases htx
          exact hopen id
        · exact .inr (.inr ⟨id', hold⟩)

theorem repliesReturn_send {request : Option Peer} (hs : s.Routed)
    (h : ∀ peer, request = some peer → s.Open peer) (bytes : List Byte) :
    RepliesReturn (s.commandsSendPacket request bytes) := by
  intro packet hpacket peer hpeer
  obtain rfl := List.mem_singleton.1 hpacket
  exact hs.aims peer (h peer hpeer)

theorem repliesReturn_act (hs : s.Routed) {peer : Peer} {action : Action}
    (hopen : ¬action.IsRelay → s.Open peer) : RepliesReturn (s.act peer action).2 := by
  cases action with
  | reply bytes =>
      apply repliesReturn_send hs
      rintro p ⟨⟩
      exact hopen id
  | relay id bytes more =>
      apply repliesReturn_send hs
      intro p hp
      obtain ⟨request, hrequest, rfl⟩ := Option.map_eq_some_iff.1 hp
      exact answered_mem hrequest
  | signal task => nofun
  | transmit frames => nofun

/-- `rx_buffer_last_id` is written for a controller. -/
theorem Routed.name {f : SendFunc} {peer : Peer} {id : Nat} {sets : Bool} {actions : List Action}
    (hs : s.Routed) (hjob : s.jobs f = some ⟨peer, some id, sets, actions⟩)
    (h : ¬s.Redirects (.thread f)) : { s with can.rxBufferLastId := id }.Routed := by
  have hfits := hs.fits f _ hjob
  obtain rfl : peer = .can id := hfits.sender id rfl
  obtain rfl : SendFunc.can = f := hfits.own
  constructor
  · intro f' job' hjob'
    have hfits' := hs.fits f' job' hjob'
    refine ⟨hfits'.own, hfits'.sender, fun id' hnone hid' => ?_, hfits'.relays⟩
    -- only the CAN thread handles packets of controllers, and its job is this one
    have hf : SendFunc.can = f' := by
      rw [← hfits'.own, hid']
      rfl
    subst hf
    rw [hjob] at hjob'
    obtain rfl := Option.some.inj hjob'
    cases hnone
  · intro p hp
    obtain ⟨hfunc, -⟩ := dest_eq_some.1 (hs.aims p hp)
    refine dest_eq_some.2 ⟨hfunc, fun id' hid' => ?_⟩
    by_contra hne
    refine h ⟨_, p, hjob, hp, by rw [hid', Peer.sendFunc], ?_⟩
    rintro rfl
    exact hne (Peer.can.inj hid')

/-- `send_func` is written for an interface. -/
theorem Routed.setSendFunc {f : SendFunc} {peer : Peer} {actions : List Action}
    (hs : s.Routed) (hjob : s.jobs f = some ⟨peer, none, true, actions⟩)
    (h : ¬s.Redirects (.thread f)) : { s with can.sendFunc := some f }.Routed := by
  refine ⟨hs.fits, fun p hp => ?_⟩
  obtain ⟨-, hid⟩ := dest_eq_some.1 (hs.aims p hp)
  have hown : p.sendFunc = f := by
    by_contra hne
    exact h ⟨_, p, hjob, hp, rfl, hne⟩
  exact dest_eq_some.2 ⟨congrArg some hown.symm, hid⟩

theorem routed_runThread (hs : s.Routed) {f : SendFunc} (h : ¬s.Redirects (.thread f)) :
    (s.runThread f).1.Routed ∧ RepliesReturn (s.runThread f).2 := by
  unfold runThread
  split
  next => exact ⟨hs, nofun⟩
  next peer id sets actions hjob =>
    have hfits := hs.fits f _ hjob
    refine ⟨(hs.name hjob h).leave ?_ ?_, nofun⟩
    -- the sender that the job was to name has now been named
    · refine ⟨hfits.own, nofun, fun id' _ hid' => ?_, fun hnone => absurd rfl hnone⟩
      exact Peer.can.inj ((hfits.sender id rfl).symm.trans hid')
    · rintro ⟨-, hsets, action, haction, hrelay⟩
      exact absurd (hfits.relays nofun hsets action haction) hrelay
  next peer actions hjob =>
    have hfits := hs.fits f _ hjob
    refine ⟨(hs.setSendFunc hjob h).leave ?_ fun _ => ?_, nofun⟩
    · exact ⟨hfits.own, nofun, hfits.named, fun hnone => absurd rfl hnone⟩
    -- from here on the request of this job is open, and both variables are its own
    · exact dest_eq_some.2 ⟨congrArg some hfits.own.symm, fun id => hfits.named id rfl⟩
  next => exact ⟨hs, nofun⟩
  next peer action actions hjob =>
    have hfits := hs.fits f _ hjob
    -- the request of the action is open as long as the action is still to come
    have hopen : ¬action.IsRelay → s.Open peer := fun hrelay =>
      .inl ⟨f, _, hjob, ⟨rfl, rfl, action, List.mem_cons_self, hrelay⟩, rfl⟩
    have hact := settles_act hopen
    refine ⟨(hs.settles hact).leave ?_ ?_, repliesReturn_act hs hopen⟩
    · rw [hact.rxBufferLastId]
      exact ⟨hfits.own, hfits.sender, hfits.named, fun hnone => absurd rfl hnone⟩
    · rintro ⟨-, -, later, hlater, hrelay⟩
      rw [hact.dest]
      have hmem := List.mem_cons_of_mem action hlater
      exact hs.aims peer (.inl ⟨f, _, hjob, ⟨rfl, rfl, later, hmem, hrelay⟩, rfl⟩)

/-! ## The workers -/

theorem settles_wake (task : Task) : Settles s (s.wake task) := by
  unfold wake
  split
  next peer hworker =>
    apply settles_setWorker
    rintro p (⟨⟨⟩⟩ | ⟨⟨⟩⟩)
    exact .inr (.inl ⟨task, .inl (by rw [hworker])⟩)
  next => exact ⟨rfl, rfl, rfl, fun _ h => h⟩

theorem routed_work (hs : s.Routed) (task : Task) (bytes : List Byte) (more : Bool) :
    (s.work task bytes more).1.Routed ∧ RepliesReturn (s.work task bytes more).2 := by
  unfold work
  split
  next => exact ⟨hs, nofun⟩
  next peer hrunning =>
    have hopen : s.Open peer := .inr (.inl ⟨task, .inr hrunning⟩)
    constructor
    · apply hs.settles
      apply settles_setWorker
      rintro p (hevent | hp)
      · exact .inr (.inl ⟨task, .inl hevent⟩)
      · cases more <;> cases hp
        exact hopen
    · apply repliesReturn_send hs
      rintro p ⟨⟩
      exact hopen

/-! ## Runs -/

theorem routed_step (hs : s.Routed) {input : RouterInput} (h : ¬s.Redirects input) :
    (router.step s input).1.Routed ∧ RepliesReturn (router.step s input).2 := by
  cases input with
  | usb m data len => exact ⟨hs.take m (show Peer.usb.sendFunc ≠ .can by decide) data len, nofun⟩
  | uart m data len => exact ⟨hs.take m (show Peer.uart.sendFunc ≠ .can by decide) data len, nofun⟩
  | nrf m data len => exact ⟨hs.take m (show Peer.nrf.sendFunc ≠ .can by decide) data len, nofun⟩
  | can m arrival more => exact ⟨hs.takeFrame m arrival more, nofun⟩
  | thread f => exact routed_runThread hs h
  | wake task => exact ⟨hs.settles (settles_wake task), nofun⟩
  | detectSend param => exact routed_work hs .detect _ false
  | sampleSend sample more => exact routed_work hs .sample _ more

end Router

/-- In every run in which no thread redirects an open request, every reply goes to the
peer that asked for it. -/
theorem repliesReturn_of_not_redirects (can : CanState) (inputs : List RouterInput)
    (h : router.Always (fun s input => ¬s.Redirects input) (Router.boot can) inputs) :
    RepliesReturn (router.run (Router.boot can) inputs).2 :=
  Machine.run_outputs_of_invariant (fun _ _ hs hinput => (Router.routed_step hs hinput).1)
    (fun _ _ hs hinput => (Router.routed_step hs hinput).2) (Router.routed_boot can) h

/-- A controller that has just been started, and a handler that prints nothing. -/
def startedRouter : Router :=
  Router.boot ⟨fun _ => 0, 0, [], 0, none⟩

def plainMoment : Moment := ⟨plainDevice, fun _ => []⟩

theorem repliesReturn_of_not_redirects_detect :
    (router.run startedRouter
        [.usb plainMoment (fun _ => 23) 13, .thread .usb, .thread .usb, .wake .detect,
          .detectSend ⟨0, 0, [], 0, false⟩]).2 =
        [⟨some .usb, some .usb, detectReply ⟨0, 0, [], 0, false⟩⟩] ∧
      RepliesReturn (router.run startedRouter
        [.usb plainMoment (fun _ => 23) 13, .thread .usb, .thread .usb, .wake .detect,
          .detectSend ⟨0, 0, [], 0, false⟩]).2 := by
  refine ⟨rfl, repliesReturn_of_not_redirects _ _ ⟨id, ?_, ?_, id, id, trivial⟩⟩
  · rintro ⟨-, peer, -, ⟨f, job, hjob, hopen, -⟩ | ⟨task, ⟨⟨⟩⟩ | ⟨⟨⟩⟩⟩ | ⟨id, ⟨⟩⟩, -⟩
    cases f <;> cases hjob
    cases hopen.2.1
  · rintro ⟨job, peer, ⟨⟨⟩⟩, -, hsets, -⟩
    cases hsets

/-- A packet that comes by UART during a detection takes the reply away from USB. -/
theorem not_repliesReturn_detect :
    ¬RepliesReturn (router.run startedRouter
      [.usb plainMoment (fun _ => 23) 13, .thread .usb, .thread .usb, .wake .detect,
        .uart plainMoment (fun _ => 0) 1, .thread .uart, .detectSend ⟨0, 0, [], 0, false⟩]).2 := by
  intro h
  have hdest := h ⟨some .usb, some .uart, detectReply ⟨0, 0, [], 0, false⟩⟩
    List.mem_cons_self .usb rfl
  cases hdest

end Bldc.Command
