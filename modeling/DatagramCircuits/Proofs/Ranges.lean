import DatagramCircuits.Proofs.Shelter
/-!
# What fits into 64 bits

Three numbers on the way of an arriving datagram grow with the settings: how far a zero-coded body may
expand, at how many octets acknowledgements are due, and the sum of the rates that a peer asks for once
they are cut down to the limit of a circuit. A fourth one, the octets to be acknowledged, grows with
what arrives, and a fifth one with nothing but what a peer asks for: the sum of rates that a warning
names.

**The check of the settings bounds the MTU and the limit from below only,** and knows nothing of who reads
warnings. The settings fit (`Config.Fits`) exactly if nothing that a peer can send leaves 64 bits. Then no
fault ever ends decoding, nor the set-up of a circuit that can be opened, before `2 ^ 64` octets have
arrived (`Ranges.unharmed`). Where they do not fit, a single datagram of a peer ends decoding for good.
-/

namespace DatagramCircuits

namespace RunningServer

open Server

variable {mtu : Nat} {r r₀ : RunningServer} {now start : Instant} {s : Server} {config : Config}

/-! ### What a single datagram can do -/

theorem parse_zeroCodedWord (h : UInt64.size ≤ Datagram.expansionFactor * mtu) :
    Datagram.parse mtu zeroCodedWord = .error (.fault .overflow) := by
  have hlimit : within64 (Datagram.expansionFactor * mtu) = .error .overflow :=
    if_neg (Nat.not_lt.2 h)
  have hexpand : Datagram.expandBody mtu { zeroCoded := true } [5, 1] = .error (.fault .overflow) := by
    rw [Datagram.expandBody, if_pos rfl, hlimit]
    rfl
  change (Datagram.expandBody mtu { zeroCoded := true } [5, 1] >>= _) = _
  rw [hexpand]
  rfl

/-- A peer asks for the largest rates. -/
def greedyThrottle : Octets :=
  [0, 0, 0, 0, 2, 0, 255, 255, 0, 81, 28] ++ Rates.largestPacked

/-- What that datagram says. -/
def greedyPacket : Packet where
  header := { sequence := 2 }
  id := .throttle
  payload := 28 :: Rates.largestPacked
  acks := []

theorem parse_greedyThrottle (mtu : Nat) : Datagram.parse mtu greedyThrottle = .ok greedyPacket :=
  rfl

theorem read_greedyPacket : Control.read greedyPacket.id greedyPacket.payload =
    .ok (some (.throttle (Rates.ofPacked Rates.largestPacked)), []) :=
  rfl

/-- A circuit whose limit can not be summed up over all lanes, or whose warnings somebody reads, meets a
fault in that datagram. -/
theorem failed_of_greedyThrottle {source : Address} {id : CircuitId} {c : Circuit}
    (hid : s.table.byAddress.get? source = some id) (hc : s.circuit? id = some c)
    (hopen : c.isClosed = false) (hfloor : Lane.floorTotal ≤ c.allowance.limit.toNat)
    (hexcess : UInt64.size ≤ Lane.all.length * c.allowance.limit.toNat ∨ c.config.warnings = true)
    (now : Instant) : (s.handle source greedyThrottle now).1 = .failed .overflow := by
  have hreceive : ∃ c', c.receive greedyPacket greedyThrottle.length now = (.ok (.accept false), c') ∧
      c'.allowance = c.allowance ∧ c'.config = c.config := by
    rw [Circuit.receive, hopen]
    exact ⟨_, rfl, rfl, rfl⟩
  obtain ⟨c', hreceive, hallowance, hconfig⟩ := hreceive
  have hput : (s.putCircuit id c').circuit? id = some c' := (circuit?_set hc c' id).trans (if_pos rfl)
  have hrates : c'.renegotiate (Rates.ofPacked Rates.largestPacked) now (s.putCircuit id c').forest =
      .error .overflow := by
    rw [Circuit.renegotiate, hallowance, hconfig, Allowance.renegotiate_largest hfloor hexcess]
  simp only [handle, readDatagram, parse_greedyThrottle, hid, receive, hc, hreceive, deliver, hput,
    read_greedyPacket, Server.control, hrates]

/-- Decoding waits for the next datagram, and whatever arrives next will be that. -/
structure Attentive (r : RunningServer) : Prop where
  receiving : r.receiving = true
  decoding : r.decoding = .idle
  inbox : r.server.inbox = []

/-- **A fault in a datagram** ends decoding. -/
theorem decoding_of_fault (fault : Fault) (h : Attentive r) (hroom : 0 < r.server.config.inboxCapacity)
    {source : Address} {datagram : Octets} {now' : Instant} (hlength : datagram.length ≤ receiveLimit)
    (hfault : ∀ s : Server, s.config = r.server.config → s.circuits = r.server.circuits →
      s.table = r.server.table → (s.handle source datagram now').1 = .failed fault) :
    ((r.step now (.arrive source datagram)).step now' .decode).decoding = .ended := by
  have harrived : r.server.arrive source datagram =
      { r.server.count Counters.countReceived with inbox := [(source, datagram)] } := by
    simp only [Server.arrive, Server.count, h.inbox, List.length_nil, hroom, if_true,
      List.take_of_length_le hlength, List.nil_append]
  have htaken : (r.step now (.arrive source datagram)).step now' .decode =
      (r.step now (.arrive source datagram)).decoded
        ({ r.server.count Counters.countReceived with inbox := [] }.advance now'
          [.handle source datagram]) := by
    simp only [step, arrive, h.receiving, if_true, harrived, decode, h.decoding]
  have hfailed : ({ r.server.count Counters.countReceived with inbox := [] }.advance now'
      [.handle source datagram]).1 = .failed fault := by
    have hhandled := hfault { r.server.count Counters.countReceived with inbox := [] } rfl rfl rfl
    rw [advance, perform]
    split <;> rename_i heq <;> rw [heq] at hhandled
    · cases hhandled
    · cases hhandled
    · exact hhandled
  rw [htaken, decoded, hfailed]
  rfl

/-! ### Which settings suffice -/

/-- What is known of the numbers on the way of arriving datagrams, under settings that are valid. -/
structure Ranges (config : Config) (r₀ : RunningServer) : Prop where
  /-- All circuits have the settings of the server, and their limit. -/
  suited : ∀ history, ∀ c ∈ (r₀.run history).server.circuits,
    c.config = config ∧ c.allowance.limit = config.circuitRate
  /-- Every datagram can be read, or is refused, exactly if it can be counted how far a zero-coded body
  may expand. -/
  reading : (∀ datagram fault, Datagram.parse config.mtu datagram ≠ .error (.fault fault)) ↔
    Datagram.expansionFactor * config.mtu < 2 ^ 64
  /-- A circuit knows what to make of a new reliable datagram exactly if the threshold for
  acknowledgements can be counted, provided that the octets to be acknowledged can be. -/
  accepting : ∀ history id c p length now, (r₀.run history).server.circuit? id = some c →
    c.isClosed = false → p.isReliable = true →
    c.tracker.seen.members.contains p.header.sequence = false →
    c.tracker.ackBytes + length < 2 ^ 64 →
    ((∃ d, (c.receive p length now).1 = .ok d) ↔ Circuit.ackThreshold * config.mtu < 2 ^ 64)
  /-- Whatever rates a peer asks for can be negotiated exactly if the limit can be summed up over all
  lanes. -/
  negotiating : (∀ packed, ∃ a, Rates.negotiate config.circuitRate (Rates.ofPacked packed) = .ok a) ↔
    Lane.all.length * config.circuitRate.toNat < 2 ^ 64
  /-- Whatever rates a peer asks for can be granted, with a warning if there is to be one, exactly if in
  addition nobody reads warnings. -/
  adjusting : (∀ packed, ∃ a, Rates.negotiate config.circuitRate (Rates.ofPacked packed) = .ok a ∧
    a.warn config.warnings = .ok ()) ↔
      Lane.all.length * config.circuitRate.toNat < 2 ^ 64 ∧ config.warnings = false
  /-- Where the limit can be summed up, a circuit can be opened exactly if there is room for what it is to
  remember, and the clock can show when its timers run out. No peer has any part in that. -/
  opening : Lane.all.length * config.circuitRate.toNat < 2 ^ 64 → ∀ session address root now f,
    (∃ r, Circuit.opened session address config root now f = .ok r) ↔ config.Opens now
  /-- If the settings fit, and few enough octets have arrived to be counted, a fault ends no task but a
  round of regular work, unless it is to set a circuit up where none can be opened. -/
  unharmed : config.Fits → ∀ history now e fault, received history < 2 ^ 64 →
    (r₀.run history).Faults now e fault → (∃ order, e = .beginRound order) ∨ e = .resumeRound ∨
      ¬config.Opens now ∧ ∃ position session, e = .authorize position (.granted session)
  /-- If the MTU does not fit, there is a datagram by which anyone can end decoding. -/
  endedByAnyone : 2 ^ 64 ≤ Datagram.expansionFactor * config.mtu → ∃ datagram,
    ∀ history source now now', Attentive (r₀.run history) →
      (((r₀.run history).step now (.arrive source datagram)).step now' .decode).decoding = .ended
  /-- If the limit of a circuit does not fit, or somebody reads warnings, there is a datagram by which each
  peer with a circuit can end decoding. -/
  endedByPeer : 2 ^ 64 ≤ Lane.all.length * config.circuitRate.toNat ∨ config.warnings = true →
    ∃ datagram, ∀ history source id now now', Attentive (r₀.run history) →
      (r₀.run history).server.table.byAddress.get? source = some id →
      (((r₀.run history).step now (.arrive source datagram)).step now' .decode).decoding = .ended

/-- **The settings suffice exactly if they fit.** Their check does not see to that. -/
theorem ranges_of_create (hcreate : create config start = .ok r₀) : Ranges config r₀ := by
  have hvalid := valid_of_create hcreate
  have hregular := (inOrder_of_create hcreate).regular
  have hconfig : ∀ history, (r₀.run history).server.config = config := fun history ↦ by
    obtain ⟨burst, pending, notices, -, rfl⟩ := exists_of_create hcreate
    exact config_of_run history _
  have hsuited : ∀ history, ∀ c ∈ (r₀.run history).server.circuits,
      c.config = config ∧ c.allowance.limit = config.circuitRate := fun history ↦ by
    have hbegin : r₀.server.Suited := by
      obtain ⟨burst, pending, notices, -, rfl⟩ := exists_of_create hcreate
      exact fun c hc ↦ absurd hc List.not_mem_nil
    have hall := (bears_run hregular history).suited hbegin
    rw [Suited, hconfig] at hall
    exact hall
  have hroom : ∀ history, 0 < (r₀.run history).server.config.inboxCapacity := fun history ↦
    hconfig history ▸ hvalid.inboxCapacity_pos
  -- rates and the opening of circuits do not depend on the history, so lemmas about them will do
  refine ⟨hsuited, ⟨fun hall ↦ ?_, fun hmtu _ ↦ Datagram.parse_ne_fault hmtu⟩, ?_,
    Rates.negotiable_iff hvalid.floorTotal_le, Rates.adjustable_iff hvalid.floorTotal_le _,
    Circuit.exists_opened_iff hvalid, ?_, ?_, ?_⟩
  · refine Nat.lt_of_not_le fun hexcess ↦ ?_
    exact hall zeroCodedWord .overflow (parse_zeroCodedWord hexcess)
  · intro history id c p length now hid hopen hp hnew hbytes
    obtain ⟨hc, -⟩ := hsuited history c (List.mem_of_getElem? hid)
    rw [← hc]
    refine ⟨fun hreceive ↦ Nat.lt_of_not_le fun hexcess ↦ ?_, fun hmtu ↦
      Circuit.exists_receive hmtu hbytes p now⟩
    obtain ⟨d, hd⟩ := hreceive
    rw [Circuit.receive_of_excess hopen hp hnew hbytes hexcess] at hd
    cases hd
  · intro hfits history now e fault hreceived hfault
    have hdivided := run_induction (p := Divided) (fun now e r h ↦ h.step now e) history
      (divided_of_create hcreate)
    obtain ⟨k, hchain⟩ := chain_of_run history r₀
    have hends := fault_of_sheltered (hregular.chain hchain) hdivided
      (sheltered_of_run hcreate hfits hreceived) hfault
    rwa [hconfig] at hends
  · intro hexcess
    refine ⟨zeroCodedWord, fun history source now now' hready ↦ ?_⟩
    refine decoding_of_fault .overflow hready (hroom history) (by decide) fun s hs _ _ ↦ ?_
    have hparse := parse_zeroCodedWord hexcess
    rw [← hconfig history, ← hs] at hparse
    simp only [handle, readDatagram, hparse]
  · intro hexcess
    refine ⟨greedyThrottle, fun history source id now now' hready hid ↦ ?_⟩
    obtain ⟨k, hchain⟩ := chain_of_run history r₀
    obtain ⟨c, hc, hopen, -⟩ := ((hregular.chain hchain).orderly.consistent.byAddress ..).1 hid
    obtain ⟨hsettings, hlimit⟩ := hsuited history c (List.mem_of_getElem? hc)
    refine decoding_of_fault .overflow hready (hroom history) (by decide) fun s _ hcircuits htable ↦ ?_
    rw [circuit?, ← hcircuits] at hc
    exact failed_of_greedyThrottle (htable ▸ hid) hc hopen (hlimit ▸ hvalid.floorTotal_le)
      (hlimit.symm ▸ hsettings.symm ▸ hexcess) now'

/-- The default settings fit, circuits can be opened under them, and the octets of a request and some
datagrams can be counted. -/
theorem ranges_of_defaults :
    ∃ r₀, create {} 0 = .ok r₀ ∧ Config.Fits {} ∧ Config.Opens {} 0 ∧ received asking < 2 ^ 64 ∧
      Ranges {} r₀ := by
  obtain ⟨r₀, hcreate, -⟩ := exists_eq_ok_of_any (x := create {} 0) (p := fun _ ↦ true)
    (by decide +kernel)
  exact ⟨r₀, hcreate, ⟨by decide, by decide, rfl⟩, ⟨by decide, by decide, by decide, by decide⟩,
    by decide +kernel, ranges_of_create hcreate⟩

/-- A circuit is set up, and then its peer asks for the largest rates. -/
def askingGreedily : List (Instant × Step) :=
  settingUp 2 (.ofNat 7) ++ [(0, .resumeSetup 0), (0, .resumeSetup 0)] ++ hearing 2 greedyThrottle

/-- Under the largest limit that can be written, which is valid, the largest rates can not be negotiated.
Decoding waits after the set-up of a circuit, and a request for these rates ends it, though nobody asked
for that. -/
theorem ended_of_excessiveRate :
    Config.Valid { circuitRate := 18446744073709551615 } ∧
    Rates.negotiate 18446744073709551615 (Rates.ofPacked Rates.largestPacked) = .error .overflow ∧
    ∃ r₀, create { circuitRate := 18446744073709551615 } 0 = .ok r₀ ∧
      (r₀.run (settingUp 2 (.ofNat 7) ++ [(0, .resumeSetup 0), (0, .resumeSetup 0)])).decoding = .idle ∧
      (r₀.run askingGreedily).decoding = .ended ∧
      (r₀.run askingGreedily).server.stopping = false := by
  obtain ⟨r₀, hcreate, htest⟩ := exists_eq_ok_of_any
    (x := create { circuitRate := 18446744073709551615 } 0)
    (p := fun r₀ ↦ decide ((r₀.run (settingUp 2 (.ofNat 7) ++
        [(0, .resumeSetup 0), (0, .resumeSetup 0)])).decoding = .idle ∧
      (r₀.run askingGreedily).decoding = .ended ∧
      (r₀.run askingGreedily).server.stopping = false)) (by decide +kernel)
  have hfault : Rates.negotiate 18446744073709551615 (Rates.ofPacked Rates.largestPacked) =
      .error .overflow := Rates.negotiate_largest (by decide) (by decide)
  exact ⟨valid_of_create hcreate, hfault, r₀, hcreate, of_decide_eq_true htest⟩

end RunningServer

end DatagramCircuits
