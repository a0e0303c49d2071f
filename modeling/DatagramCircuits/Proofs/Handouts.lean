import DatagramCircuits.Proofs.Changes
import DatagramCircuits.Proofs.Counters
import DatagramCircuits.Proofs.Instants
import Mathlib.Algebra.BigOperators.Group.List.Basic
/-!
# What circuits hand out

A circuit hands out datagrams and counts them, `Circuit.Hands`, and none of these answers a ping
(`Circuit.isPong_of_mem_counted`). The answer to a ping is the one datagram that a circuit puts out and
does not count: at the end of a life the counter is behind by as many as pings were answered
(`Circuit.Counted`).

What is handed out becomes actions of a task, which give the datagrams to the socket and count them as a
group, `Action.Gives`. In a task these actions come before all others, `Action.SendsFirst`.
-/

namespace DatagramCircuits

/-- A counter of 64 bits is where it was only if it comes round. -/
theorem eq_add_ofNat_iff (a : UInt64) (n : Nat) : a = a + UInt64.ofNat n ↔ 2 ^ 64 ∣ n := by
  rw [UInt64.left_eq_add, ← UInt64.toNat_inj, UInt64.toNat_ofNat', Nat.dvd_iff_mod_eq_zero]
  rfl

namespace Circuit

variable {P : Message → Prop} {config : Config} {l : List Event} {c c' c'' : Circuit} {now : Instant}
  {f f' : Forest} {t : Turn} {d : Octets} {ds ds' : List Octets}

/-! ### What circuits hand out -/

/-- A tick puts out no answer to a ping. -/
theorem isPong_of_tick (h : Coursed P (fun _ ↦ True) config l c) (ht : c.tick now f = .ok t) :
    ∀ d ∈ t.output.datagrams, Datagram.isPong config.mtu d = false := by
  cases hclosed : c.isClosed with
  | true =>
    rw [tick_of_isClosed ht hclosed]
    exact fun d hd ↦ absurd hd List.not_mem_nil
  | false =>
    obtain ⟨sent, hdatagrams, hnumbered⟩ := numbered_of_tick h ht hclosed
    obtain ⟨acks, ping, hprepared, hacks, hping⟩ := (upkept_prepared now c f).datagrams
    rw [h.books.config_eq] at hacks hping
    intro d hd
    rw [hdatagrams, hprepared] at hd
    rcases List.mem_append.1 hd with hd | hd
    · rcases List.mem_append.1 hd with hd | hd
      · obtain ⟨s, hs⟩ := hacks d hd
        exact isPong_of_signal hs
      · obtain ⟨id, oldest, hs⟩ := hping d (Option.mem_toList.1 hd)
        exact isPong_of_signal hs
    · exact Datagram.isPong_of_numbered (hnumbered d hd) config.mtu

/-- **What a circuit counts** answers no ping. -/
theorem isPong_of_mem_counted {o : Operation} {answer : Answer}
    (h : Coursed P (fun _ ↦ True) config l c) (ho : c.apply o f = .ok (answer, c', f')) :
    ∀ d ∈ answer.counted, Datagram.isPong config.mtu d = false := by
  have hmtu : c.config.mtu = config.mtu := congrArg Config.mtu h.books.config_eq
  have hkind := kind_of_apply ho
  intro d hd
  cases o with
  | tick now =>
    obtain ⟨t, ht, rfl, rfl, rfl⟩ := eq_of_apply_tick ho
    exact isPong_of_tick h ht d hd
  | flushAcks =>
    cases ho
    obtain ⟨s, hs⟩ := exists_signal_of_mem_sendAcks hd
    exact isPong_of_signal (hmtu ▸ hs)
  | ping now =>
    cases ho
    exact isPong_of_signal (m := c.pingMessage) (hmtu ▸ signal_of_ping (Option.mem_toList.1 hd))
  | _ => cases answer <;> first | exact absurd hd List.not_mem_nil | exact hkind.elim

/-- The circuit was opened under the configuration, and anything may have happened to it since. -/
def Seasoned (config : Config) (c : Circuit) : Prop :=
  ∃ l, Coursed (fun _ ↦ True) (fun _ ↦ True) config l c

/-- From one state to the other a circuit hands these datagrams out, and counts them. -/
structure Hands (ds : List Octets) (c c' : Circuit) : Prop where
  seasoned : ∀ {config}, Seasoned config c → Seasoned config c'
  silent : ∀ {config}, Seasoned config c → ∀ d ∈ ds, Datagram.isPong config.mtu d = false
  sent : c'.sent = c.sent + UInt64.ofNat ds.length

/-- What is handed out in two parts follows each other. -/
theorem Hands.trans (h : Hands ds c c') (h' : Hands ds' c' c'') : Hands (ds ++ ds') c c'' where
  seasoned hc := h'.seasoned (h.seasoned hc)
  silent hc d hd := by
    rcases List.mem_append.1 hd with hd | hd
    · exact h.silent hc d hd
    · exact h'.silent (h.seasoned hc) d hd
  sent := by
    rw [h'.sent, h.sent, List.length_append, UInt64.ofNat_add, UInt64.add_assoc]

/-- A circuit that takes its course hands nothing out as long as it counts nothing. -/
theorem hands_nothing {k : List Event} (hk : Chain (Course (fun _ ↦ True) fun _ ↦ True) c k c')
    (hsent : c'.sent = c.sent) : Hands [] c c' where
  seasoned := fun ⟨l, hl⟩ ↦ ⟨l ++ k, hl.trans hk⟩
  silent _ _ hd := absurd hd List.not_mem_nil
  sent := hsent.trans (UInt64.add_zero _).symm

/-- **An operation** hands out what its answer says. -/
theorem hands_of_apply {o : Operation} {answer : Answer} (hP : o.QueuesOnly fun _ ↦ True)
    (ho : c.apply o f = .ok (answer, c', f')) : Hands answer.counted c c' where
  seasoned := fun ⟨_, hl⟩ ↦ ⟨_, hl.trans (courses_of_moves (moves_of_apply hP ho) fun _ _ ↦ trivial)⟩
  silent := fun ⟨_, hl⟩ ↦ isPong_of_mem_counted hl ho
  sent := congrArg Prod.fst (counters_of_apply ho)

/-- An arriving datagram makes a circuit hand nothing out, whatever becomes of it. -/
theorem hands_receive (p : Packet) (length : Nat) (now : Instant) (c : Circuit) :
    Hands [] c (c.receive p length now).2 := by
  have hsent := congrArg Prod.fst (counters_receive p length now c)
  cases hreceive : (c.receive p length now).1 with
  | error fault =>
    exact hands_nothing ((courses_of_receive_error hreceive).mono (.mono fun _ ↦ trivial)) hsent
  | ok disposition =>
    have happly : c.apply (.receive p length now) {} =
        .ok (.received disposition, (c.receive p length now).2, {}) :=
      bind_eq_ok_iff.2 ⟨disposition, hreceive, rfl⟩
    exact hands_nothing (courses_of_moves (moves_of_apply (o := .receive p length now) trivial happly)
      fun _ _ ↦ trivial) hsent

/-- A tick that ends with a fault hands nothing out. -/
theorem hands_of_tick_error {fault : Fault} (h : c.tick now f = .error (fault, t)) :
    Hands [] c t.circuit :=
  hands_nothing (courses_of_tick_error h) (congrArg Prod.fst (counters_of_tick_error h))

/-- Owed acknowledgements that are sent are handed out and counted. -/
theorem hands_flushAcks (c : Circuit) : Hands c.flushAcks.1 c c.flushAcks.2 :=
  hands_of_apply (o := .flushAcks) (f := {}) trivial rfl

/-- A circuit that is closed hands out nothing any more. -/
theorem hands_ended (hopen : c.isClosed = false) : Hands [] c c.ended := by
  have hclose : c.apply .close {} = .ok (.confirmed true, c.ended, c.allowance.detach {}) := by
    rw [apply_close, close_of_open hopen]
  exact hands_of_apply (o := .close) trivial hclose

/-! ### Lives -/

/-- Whether the answer is that to a ping. -/
def Answer.isPong : Answer → Bool
  | answered _ => true
  | _ => false

/-- A datagram that was put out was counted, or answers a ping. -/
theorem length_datagrams (answers : List Answer) : (answers.flatMap Answer.datagrams).length =
    (answers.flatMap Answer.counted).length + answers.countP Answer.isPong := by
  induction answers with
  | nil => rfl
  | cons a answers ih =>
    have hone : a.datagrams.length = a.counted.length + if a.isPong then 1 else 0 := by
      cases a <;> rfl
    rw [List.flatMap_cons, List.flatMap_cons, List.length_append, List.length_append, ih, hone,
      List.countP_cons]
    omega

/-- What the counter of a circuit says at the end of a life. -/
structure Counted (moments : List Moment) (c : Circuit) : Prop where
  /-- All datagrams that it put out are counted, but for the answers to pings. -/
  sent : c.sent + UInt64.ofNat ((moments.map Moment.answer).countP Answer.isPong) =
    UInt64.ofNat ((moments.map Moment.answer).flatMap Answer.datagrams).length
  /-- So all are counted only where no ping was answered, or so many that the counter comes round. -/
  counts_all_iff : c.sent = UInt64.ofNat ((moments.map Moment.answer).flatMap Answer.datagrams).length ↔
    2 ^ 64 ∣ (moments.map Moment.answer).countP Answer.isPong

/-- **At the end of a life** the counter is behind by as many datagrams as pings were answered. -/
theorem counted_of_live {session : Session} {address : Address} {root : BucketId} {start : Instant}
    {ops : List (Operation × Forest)} {moments : List Moment}
    (h : live session address config root start f ops = .ok (moments, c)) : Counted moments c := by
  obtain ⟨c₀, f', hopened, hrun⟩ := live_eq_ok h
  have hcounters := counters_of_chronicle hrun
  rw [counters_of_opened hopened, foldl_counting] at hcounters
  have hsent : c.sent = 0 + UInt64.ofNat ((moments.map Moment.answer).flatMap Answer.counted).length :=
    congrArg Prod.fst hcounters
  have hall : c.sent + UInt64.ofNat ((moments.map Moment.answer).countP Answer.isPong) =
      UInt64.ofNat ((moments.map Moment.answer).flatMap Answer.datagrams).length := by
    rw [hsent, length_datagrams, UInt64.ofNat_add, UInt64.zero_add]
  refine ⟨hall, ?_⟩
  rw [← hall]
  exact eq_add_ofNat_iff ..

end Circuit

/-! ### Tasks -/

/-- The datagram that is given to the socket. -/
def Effect.datagram? : Effect → Option Octets
  | sent _ d => some d
  | _ => none

namespace Action

variable {l k : List Action}

/-- The datagram that an action gives to the socket. -/
def datagram? : Action → Option Octets
  | transmit _ d => some d
  | _ => none

/-- How many datagrams an action counts. -/
def amount : Action → Nat
  | countSent n => n
  | _ => 0

/-- How many datagrams actions count. -/
def owed (l : List Action) : Nat :=
  (l.map amount).sum

@[simp] theorem owed_append (l k : List Action) : owed (l ++ k) = owed l + owed k := by
  rw [owed, List.map_append, List.sum_append]
  rfl

/-- What is sent or counted comes first. -/
def SendsFirst (l : List Action) : Prop :=
  l.Pairwise fun a b ↦ a.isSend = false → b.isSend = false

/-- The actions give these datagrams to the socket, and count them. -/
structure Gives (ds : List Octets) (l : List Action) : Prop where
  datagrams : l.filterMap datagram? = ds
  owed : owed l = ds.length

/-- What sends nothing gives the socket nothing. -/
theorem datagrams_eq_nil (h : ∀ a ∈ l, a.isSend = false) : l.filterMap datagram? = [] := by
  refine List.filterMap_eq_nil_iff.2 fun a ha ↦ ?_
  have hnone := h a ha
  cases a <;> first | rfl | cases hnone

/-- What sends nothing owes the counters nothing. -/
theorem owed_eq_zero (h : ∀ a ∈ l, a.isSend = false) : owed l = 0 := by
  refine List.sum_eq_zero fun n hn ↦ ?_
  obtain ⟨a, ha, rfl⟩ := List.mem_map.1 hn
  have hnone := h a ha
  cases a <;> first | rfl | cases hnone

theorem gives_nil (h : ∀ a ∈ l, a.isSend = false) : Gives [] l :=
  ⟨datagrams_eq_nil h, owed_eq_zero h⟩

theorem gives_nothing : Gives [] [] :=
  ⟨rfl, rfl⟩

/-- The actions of `sendAll` give the datagrams to the socket, and count all of them. -/
theorem gives_sendAll (target : Address) (ds : List Octets) : Gives ds (sendAll target ds) where
  datagrams := by
    have hmap : (ds.map (transmit target)).filterMap datagram? = ds := by
      rw [List.filterMap_map]
      exact List.filterMap_some
    rw [sendAll, List.filterMap_append, hmap]
    exact List.append_nil ds
  owed := by
    have hzero : owed (ds.map (transmit target)) = 0 := by
      rw [owed, List.map_map]
      exact List.sum_eq_zero fun n hn ↦ (List.mem_map.1 hn).elim fun d hd ↦ hd.2.symm
    rw [sendAll, owed_append, hzero, Nat.zero_add]
    exact Nat.add_zero _

/-- What comes behind may do neither. -/
theorem Gives.append {ds : List Octets} (h : Gives ds l) (hk : ∀ a ∈ k, a.isSend = false) :
    Gives ds (l ++ k) where
  datagrams := by rw [List.filterMap_append, h.datagrams, datagrams_eq_nil hk, List.append_nil]
  owed := by rw [owed_append, h.owed, owed_eq_zero hk, Nat.add_zero]

/-- Where nothing but sending is to be done, it comes first. -/
theorem sendsFirst_of_isSend (h : ∀ a ∈ l, a.isSend = true) : SendsFirst l := by
  refine List.pairwise_of_forall_mem_list fun a ha b hb hno ↦ ?_
  rw [h a ha] at hno
  cases hno

theorem sendsFirst_of_not_isSend (h : ∀ a ∈ l, a.isSend = false) : SendsFirst l :=
  List.pairwise_of_forall_mem_list fun _ _ b hb _ ↦ h b hb

/-- What does not send may come after what does. -/
theorem sendsFirst_append (hl : ∀ a ∈ l, a.isSend = true) (hk : ∀ a ∈ k, a.isSend = false) :
    SendsFirst (l ++ k) :=
  List.pairwise_append.2
    ⟨sendsFirst_of_isSend hl, sendsFirst_of_not_isSend hk, fun _ _ b hb _ ↦ hk b hb⟩

end Action

end DatagramCircuits
