import Fledger.Arch.NodeConnection
import Mathlib.Data.List.Induction
import Mathlib.Logic.Relation

-- The connections of two nodes to each other, what is on the way from the first one to the second
-- one, what has been lost, and the texts which went in and came out.
structure Transport where
  sender    : NodeConnection         := {}
  receiver  : NodeConnection         := {}
  channel   : List String            := []
  lost      : List String            := []
  accepted  : List (U256 × String)   := []
  delivered : List String            := []

namespace NCOutput

-- What goes into one of the two channels.
def packet? : NCOutput → Option String
  | incoming (.text s) | outgoing (.text s) => some s
  | _                                       => none

def text? : NCOutput → Option String
  | text s => some s
  | _      => none

theorem packet?_to (s : String) (dir : Direction) :
    (NCOutput.to (.text s) dir).packet? = some s := by
  cases dir <;> rfl

end NCOutput

def NCInput.text? : NCInput → Option String
  | text s => some s
  | _      => none

-- What comes out of one of the two channels.
def NCInput.packet? : NCInput → Option String
  | incoming (.text s) | outgoing (.text s) => some s
  | _                                       => none

namespace NodeConnection

variable {nc nc' : NodeConnection} {queue : List String} {out : List NCOutput}

-- Either everything which waits is sent, or nothing.
inductive Sends (queue : List String) (nc' : NodeConnection) (out : List NCOutput) : Prop
  | all (left : nc'.msgQueue = []) (sent : out.filterMap NCOutput.packet? = queue)
  | nothing (left : nc'.msgQueue = queue) (sent : out.filterMap NCOutput.packet? = [])

theorem sends_sendQueue (nc : NodeConnection) :
    Sends nc.msgQueue nc.sendQueue.1 nc.sendQueue.2 := by
  rw [sendQueue_eq]
  split
  case h_1     => exact .nothing rfl rfl
  case h_2 dir =>
    refine .all rfl ?_
    rw [List.filterMap_map, Function.comp_def]
    simp only [NCOutput.packet?_to, List.filterMap_some]

theorem Sends.of_out (h : Sends queue nc' out) {o : NCOutput} (ho : o.packet? = none) :
    Sends queue nc' (o :: out) := by
  cases h
  case all hq ho'     => exact .all hq <| by rwa [List.filterMap_cons_none ho]
  case nothing hq ho' => exact .nothing hq <| by rwa [List.filterMap_cons_none ho]

variable [PacketSerde]

-- What is sent is what has waited, and what has just come.
theorem sends_message (env : Env) (nc : NodeConnection) (input : NCInput) :
    Sends (nc.msgQueue ++ (input.text?.map (Packet.splitMsg env.rnd)).getD [])
      (nc.message env input).1 (nc.message env input).2 := by
  induction input using NCInput.casesDir
  case text msg   =>
    exact sends_sendQueue { nc with msgQueue := nc.msgQueue ++ Packet.splitMsg env.rnd msg }
  case disconnect => exact .nothing (List.append_nil _).symm rfl
  case setup dir pm =>
    cases dir
    all_goals exact .nothing (List.append_nil _).symm rfl
  case getStates  =>
    refine .nothing (List.append_nil _).symm ?_
    obtain ⟨queue, collector, i, o⟩ := nc
    cases i <;> cases o <;> rfl
  case conn msg dir =>
    have hn : nc.msgQueue ++ ((NCInput.of msg dir).text?.map (Packet.splitMsg env.rnd)).getD [] =
        nc.msgQueue := by
      cases dir <;> exact List.append_nil _
    have hm : nc.message env (.of msg dir) = nc.msgConn env dir msg := by cases dir <;> rfl
    rw [hn, hm]
    cases msg
    case connected =>
      have hs := sends_sendQueue (nc.setState (some { dataConnection := some .open_ }) dir)
      rw [msgQueue_setState] at hs
      exact hs.of_out rfl
    case disconnected | error => exact .nothing (msgQueue_setState ..) (by cases dir <;> rfl)
    case setup => exact .nothing rfl rfl
    case state => exact .nothing (msgQueue_setState ..) rfl
    case text s =>
      refine .nothing rfl ?_
      change ((nc.packetCollector.takePacketStr env.rehash s).2.map NCOutput.text).toList.filterMap
        NCOutput.packet? = []
      cases (nc.packetCollector.takePacketStr env.rehash s).2 <;> rfl

omit [PacketSerde] in
theorem collector_sendQueue (nc : NodeConnection) :
    nc.sendQueue.1.packetCollector = nc.packetCollector ∧
    nc.sendQueue.2.filterMap NCOutput.text? = [] := by
  rw [sendQueue_eq]
  split
  case h_1     => exact ⟨rfl, rfl⟩
  case h_2 dir _ =>
    refine ⟨rfl, ?_⟩
    rw [List.filterMap_map, List.filterMap_eq_nil_iff]
    intro s _
    cases dir <;> rfl

-- Only a packet which comes in changes the collector, or brings a text out.
theorem message_of_packet (env : Env) (nc : NodeConnection) {input : NCInput} {s : String}
    (h : input.packet? = some s) :
    (nc.message env input).1.packetCollector = (nc.packetCollector.takePacketStr env.rehash s).1 ∧
    (nc.message env input).2.filterMap NCOutput.text? =
      (nc.packetCollector.takePacketStr env.rehash s).2.toList := by
  induction input using NCInput.casesDir
  case conn msg dir =>
    have hm : nc.message env (.of msg dir) = nc.msgConn env dir msg := by cases dir <;> rfl
    have hs : msg = .text s := by
      cases dir <;> cases msg <;> cases h <;> rfl
    subst hs
    refine ⟨by rw [hm]; rfl, ?_⟩
    rw [hm]
    change ((nc.packetCollector.takePacketStr env.rehash s).2.map NCOutput.text).toList.filterMap
      NCOutput.text? = _
    cases (nc.packetCollector.takePacketStr env.rehash s).2 <;> rfl
  all_goals cases h

theorem message_of_not_packet (env : Env) (nc : NodeConnection) {input : NCInput}
    (h : input.packet? = none) :
    (nc.message env input).1.packetCollector = nc.packetCollector ∧
    (nc.message env input).2.filterMap NCOutput.text? = [] := by
  induction input using NCInput.casesDir
  case text msg     =>
    exact collector_sendQueue { nc with msgQueue := nc.msgQueue ++ Packet.splitMsg env.rnd msg }
  case disconnect   => exact ⟨rfl, rfl⟩
  case setup dir pm => cases dir <;> exact ⟨rfl, rfl⟩
  case getStates    =>
    obtain ⟨queue, collector, i, o⟩ := nc
    refine ⟨rfl, ?_⟩
    cases i <;> cases o <;> rfl
  case conn msg dir =>
    have hm : nc.message env (.of msg dir) = nc.msgConn env dir msg := by cases dir <;> rfl
    rw [hm]
    cases msg
    case text         => cases dir <;> cases h
    case connected    =>
      have hs := collector_sendQueue (nc.setState (some { dataConnection := some .open_ }) dir)
      cases dir <;> exact hs
    case disconnected | error | state => cases dir <;> exact ⟨rfl, rfl⟩
    case setup        => exact ⟨rfl, rfl⟩

end NodeConnection

namespace Transport

variable [PacketSerde]

-- The connections handle what comes in, in whatever order. What is on the way comes at any time,
-- through one of the two channels, or is lost.
inductive Step : Transport → Transport → Prop
  | send {t : Transport} {env : NodeConnection.Env} {input : NCInput} {nc : NodeConnection}
    {out : List NCOutput} (handled : t.sender.message env input = (nc, out)) :
    Step t { t with
      sender   := nc
      channel  := t.channel ++ out.filterMap NCOutput.packet?
      accepted := t.accepted ++ (input.text?.map (env.rnd, ·)).toList
    }
  | arrive {t : Transport} {env : NodeConnection.Env} {input : NCInput} {nc : NodeConnection}
    {out : List NCOutput} {s : String} {before after : List String}
    (packet : input.packet? = some s) (split : t.channel = before ++ s :: after)
    (handled : t.receiver.message env input = (nc, out)) :
    Step t { t with
      receiver  := nc
      channel   := before ++ after
      delivered := t.delivered ++ out.filterMap NCOutput.text?
    }
  | receive {t : Transport} {env : NodeConnection.Env} {input : NCInput} {nc : NodeConnection}
    {out : List NCOutput} (other : input.packet? = none)
    (handled : t.receiver.message env input = (nc, out)) :
    Step t { t with
      receiver  := nc
      delivered := t.delivered ++ out.filterMap NCOutput.text?
    }
  | lose {t : Transport} {s : String} {before after : List String}
    (split : t.channel = before ++ s :: after) :
    Step t { t with channel := before ++ after, lost := t.lost ++ [s] }

def Runs : Transport → Transport → Prop :=
  Relation.ReflTransGen Step

section Family

variable {n : Nat} {rnd : Fin n → U256} {msg : Fin n → String}

open PacketCollector

-- The packet at a position.
def packetAt (rnd : Fin n → U256) (msg : Fin n → String) (pos : Fin n × Nat) : String :=
  (PacketCollector.text rnd msg pos).2

-- The packets of a message, by their positions.
def packetsOf (msg : Fin n → String) (i : Fin n) : List (Fin n × Nat) :=
  (List.range (Packet.parts (msg i)).length).map (i, ·)

-- The packets of the messages which have not been accepted yet.
def future (msg : Fin n → String) (k : Nat) : List (Fin n × Nat) :=
  (positions msg).filter fun pos => k ≤ pos.1

theorem map_packetsOf (rnd : Fin n → U256) (msg : Fin n → String) (i : Fin n) :
    (packetsOf msg i).map (packetAt rnd msg) = Packet.splitMsg (rnd i) (msg i) := by
  have hl : (Packet.splitMsg (rnd i) (msg i)).length = (Packet.parts (msg i)).length := by
    rw [Packet.splitMsg_eq, List.length_map, Packet.length_packets]
  refine List.ext_getElem? fun k => ?_
  rw [packetsOf, List.map_map]
  by_cases hk : k < (Packet.parts (msg i)).length
  case pos => simp [packetAt, text, hk, hl]
  case neg => simp [hk, hl]

omit [PacketSerde] in
theorem perm_future (msg : Fin n → String) {k : Nat} (hk : k < n) :
    (future msg k).Perm (packetsOf msg ⟨k, hk⟩ ++ future msg (k + 1)) := by
  refine (List.perm_ext_iff_of_nodup ((nodup_positions msg).filter _) ?_).mpr fun pos => ?_
  case refine_1 =>
    refine List.Nodup.append ?_ ((nodup_positions msg).filter _) ?_
    case refine_1 => exact List.nodup_range.map fun _ _ h => (Prod.mk.inj h).2
    case refine_2 =>
      intro pos hm hf
      obtain ⟨j, _, rfl⟩ := List.mem_map.mp hm
      have hl : k + 1 ≤ k := of_decide_eq_true (List.mem_filter.mp hf).2
      exact Nat.not_succ_le_self k hl
  case refine_2 =>
    obtain ⟨i, j⟩ := pos
    simp only [future, packetsOf, List.mem_append, List.mem_filter, List.mem_map, List.mem_range,
      decide_eq_true_eq, Prod.mk.injEq, mem_positions]
    constructor
    case mp =>
      rintro ⟨hj, hi⟩
      rcases Nat.eq_or_lt_of_le hi with he | hlt
      case inl => exact .inl ⟨j, by subst he; exact ⟨hj, rfl, rfl⟩⟩
      case inr => exact .inr ⟨hj, hlt⟩
    case mpr =>
      rintro (⟨_, hj, rfl, rfl⟩ | ⟨hj, hlt⟩)
      case inl => exact ⟨hj, Nat.le_refl k⟩
      case inr => exact ⟨hj, Nat.le_of_succ_le hlt⟩

omit [PacketSerde] in
theorem Pending.perm {c : PacketCollector} {left left' : List (Fin n × Nat)}
    (h : Pending rnd msg c left) (hp : left.Perm left') : Pending rnd msg c left' where
  exists_of_lookup := h.exists_of_lookup
  lookup_eq i hi   := by
    rw [h.lookup_eq i hi]
    simp only [hp.mem_iff]

-- The messages of which all packets have arrived.
def complete (left : List (Fin n × Nat)) : List (Fin n) :=
  (List.finRange n).filter fun i => left.all fun pos => pos.1 ≠ i

omit [PacketSerde] in
theorem mem_complete {left : List (Fin n × Nat)} {i : Fin n} :
    i ∈ complete left ↔ i ∉ left.map Prod.fst := by
  simp only [complete, List.mem_filter, List.mem_finRange, true_and, List.all_eq_true,
    decide_eq_true_eq, List.mem_map, not_exists, not_and]

omit [PacketSerde] in
-- A message is complete once its last packet has come.
theorem perm_complete {left left' : List (Fin n × Nat)} {i : Fin n} {k : Nat}
    (h : left.Perm ((i, k) :: left')) : (complete left').Perm
      (complete left ++ if i ∈ left'.map Prod.fst then [] else [i]) := by
  have hn := List.nodup_finRange n
  have hm j : j ∈ left.map Prod.fst ↔ _ := (h.map Prod.fst).mem_iff
  refine (List.perm_ext_iff_of_nodup (hn.filter _) ?_).mpr fun j => ?_
  case refine_1 =>
    refine List.Nodup.append (hn.filter _) (by split <;> simp) fun j hj hi => ?_
    split at hi
    case isTrue  => cases hi
    case isFalse =>
      cases List.mem_singleton.mp hi
      exact mem_complete.mp hj <| (hm i).mpr List.mem_cons_self
  case refine_2 =>
    change j ∈ complete left' ↔ j ∈ complete left ++ _
    simp only [List.mem_append, mem_complete, hm, List.map_cons, List.mem_cons]
    generalize left'.map Prod.fst = left'
    by_cases hj : j = i
    case pos => subst hj; by_cases hl : j ∈ left' <;> simp [hl]
    case neg => by_cases hl : i ∈ left' <;> simp [hl, hj]

end Family

section Layout

open PacketCollector

variable {all : List (U256 × String)} {t t' : Transport}

def ids (all : List (U256 × String)) (i : Fin all.length) : U256 :=
  all[i].1

def texts (all : List (U256 × String)) (i : Fin all.length) : String :=
  all[i].2

-- Where the packets are which have been made and have not arrived.
structure Layout (n : Nat) where
  queued : List (Fin n × Nat) := []
  flying : List (Fin n × Nat) := []
  lost   : List (Fin n × Nat) := []

-- What is accepted later is known in advance.
structure Laid (all : List (U256 × String)) (t : Transport) (l : Layout all.length)
    (left : List (Fin all.length × Nat)) : Prop where
  accepted  : t.accepted <+: all
  queued    : t.sender.msgQueue = l.queued.map (packetAt (ids all) (texts all))
  flying    : t.channel = l.flying.map (packetAt (ids all) (texts all))
  lost      : t.lost = l.lost.map (packetAt (ids all) (texts all))
  perm      : left.Perm
    (l.queued ++ l.flying ++ l.lost ++ future (texts all) t.accepted.length)
  placed    : ∀ pos ∈ left, pos ∈ positions (texts all)
  nodup     : left.Nodup
  pending   : Pending (ids all) (texts all) t.receiver.packetCollector left
  delivered : t.delivered.Perm ((complete left).map (texts all))

theorem laid_start (all : List (U256 × String)) :
    Laid all {} {} (positions (texts all)) where
  accepted  := List.nil_prefix
  queued    := rfl
  flying    := rfl
  lost      := rfl
  perm      := by
    refine .of_eq ?_
    change positions (texts all) = (positions (texts all)).filter fun pos => 0 ≤ pos.1.val
    simp
  placed _  := id
  nodup     := nodup_positions _
  pending   := .empty _ fun _ => id
  delivered := by
    refine .of_eq ?_
    symm
    refine List.map_eq_nil_iff.mpr <| List.eq_nil_iff_forall_not_mem.mpr fun i => ?_
    rw [mem_complete, not_not]
    have hm : (i, 0) ∈ positions (texts all) :=
      mem_positions.mpr <| List.length_pos_of_ne_nil <| Packet.parts_ne_nil _
    exact List.mem_map_of_mem (f := Prod.fst) hm

variable {l : Layout all.length} {left : List (Fin all.length × Nat)}

-- The packets of what has just been accepted.
theorem exists_added {rnd : U256} {input : NCInput}
    (ha : t.accepted ++ (input.text?.map (rnd, ·)).toList <+: all) :
    ∃ added : List (Fin all.length × Nat),
      (input.text?.map (Packet.splitMsg rnd)).getD [] =
        added.map (packetAt (ids all) (texts all)) ∧
      (future (texts all) t.accepted.length).Perm (added ++
        future (texts all) (t.accepted ++ (input.text?.map (rnd, ·)).toList).length) := by
  cases hi : input.text?
  case none     => exact ⟨[], rfl, by simp⟩
  case some msg =>
    rw [hi] at ha
    obtain ⟨rest, hall⟩ := ha
    have hk : t.accepted.length < all.length := by
      rw [← hall]
      simp
    have he : all[t.accepted.length] = (rnd, msg) := by
      subst hall
      simp
    refine ⟨packetsOf (texts all) ⟨_, hk⟩, ?_, ?_⟩
    case refine_1 =>
      rw [map_packetsOf]
      simp [ids, texts, he]
    case refine_2 => simpa using perm_future (texts all) hk

-- One of the packets which are on the way.
theorem Laid.exists_flying (h : Laid all t l left) {s : String} {before after : List String}
    (hs : t.channel = before ++ s :: after) :
    ∃ first pos last, l.flying = first ++ pos :: last ∧
      first.map (packetAt (ids all) (texts all)) = before ∧
      packetAt (ids all) (texts all) pos = s ∧
      last.map (packetAt (ids all) (texts all)) = after := by
  obtain ⟨first, rest, hl, hf, hrest⟩ := List.map_eq_append_iff.mp (h.flying.symm.trans hs)
  obtain ⟨pos, last, rfl, hp, hlast⟩ := List.map_eq_cons_iff.mp hrest
  exact ⟨first, pos, last, hl, hf, hp, hlast⟩

theorem Step.accepted_prefix (h : Step t t') : t.accepted <+: t'.accepted := by
  cases h
  case send => exact List.prefix_append ..
  all_goals exact List.prefix_refl _

theorem Laid.step (h : Laid all t l left) (hd : Distinct (ids all) (texts all))
    (hr : Readable (ids all) (texts all)) (hs : Step t t') (ha : t'.accepted <+: all) :
    ∃ l' left', Laid all t' l' left' := by
  cases hs
  case send env input nc out handled =>
    obtain ⟨added, hadded, hp⟩ := exists_added ha
    have hsend := NodeConnection.sends_message env t.sender input
    rw [handled, hadded, h.queued, ← List.map_append] at hsend
    have hperm := h.perm.trans (hp.append_left _)
    cases hsend
    case all hq ho     =>
      refine ⟨⟨[], l.flying ++ (l.queued ++ added), l.lost⟩, left, ha, hq, ?_, h.lost, ?_,
        h.placed, h.nodup, h.pending, h.delivered⟩
      case refine_1 => rw [h.flying, ho, ← List.map_append]
      case refine_2 =>
        refine hperm.trans <| List.perm_iff_count.mpr fun a => ?_
        simp only [List.count_append, List.count_nil]
        omega
    case nothing hq ho =>
      refine ⟨⟨l.queued ++ added, l.flying, l.lost⟩, left, ha, hq, ?_, h.lost, ?_, h.placed,
        h.nodup, h.pending, h.delivered⟩
      case refine_1 => rw [h.flying, ho, List.append_nil]
      case refine_2 =>
        refine hperm.trans <| List.perm_iff_count.mpr fun a => ?_
        simp only [List.count_append]
        omega
  case receive env input nc out other handled =>
    obtain ⟨hc, ho⟩ := NodeConnection.message_of_not_packet env t.receiver other
    rw [handled] at hc ho
    refine ⟨l, left, h.accepted, h.queued, h.flying, h.lost, h.perm, h.placed, h.nodup, ?_, ?_⟩
    case refine_1 => exact hc ▸ h.pending
    case refine_2 => rw [ho, List.append_nil]; exact h.delivered
  case lose s before after split =>
    obtain ⟨first, pos, last, hl, rfl, rfl, rfl⟩ := h.exists_flying split
    refine ⟨⟨l.queued, first ++ last, l.lost ++ [pos]⟩, left, h.accepted, h.queued,
      List.map_append.symm, ?_, ?_, h.placed, h.nodup, h.pending, h.delivered⟩
    case refine_1 => rw [h.lost, List.map_append, List.map_singleton]
    case refine_2 =>
      refine (hl ▸ h.perm).trans <| List.perm_iff_count.mpr fun a => ?_
      simp only [List.count_append, List.count_cons, List.count_nil]
      omega
  case arrive env input nc out s before after packet split handled =>
    obtain ⟨first, ⟨i, k⟩, last, hl, rfl, rfl, rfl⟩ := h.exists_flying split
    have hperm : left.Perm ((i, k) ::
        (l.queued ++ (first ++ last) ++ l.lost ++ future (texts all) t.accepted.length)) := by
      refine (hl ▸ h.perm).trans <| List.perm_iff_count.mpr fun a => ?_
      simp only [List.count_append, List.count_cons]
      omega
    obtain ⟨hn, hnodup⟩ := List.nodup_cons.mp <| hperm.nodup_iff.mp h.nodup
    have hplaced := fun pos hm => h.placed pos (hperm.mem_iff.mpr hm)
    obtain ⟨hk, hplaced⟩ := List.forall_mem_cons.mp hplaced
    obtain ⟨c, hc, hpend⟩ :=
      (Pending.perm h.pending hperm).takePacketStr env.rehash hd hr hplaced hk hn
    obtain ⟨hcol, hout⟩ := NodeConnection.message_of_packet env t.receiver packet
    rw [handled] at hcol hout
    rw [packetAt, hc] at hcol hout
    refine ⟨⟨l.queued, first ++ last, l.lost⟩, _, h.accepted, h.queued, List.map_append.symm,
      h.lost, .refl _, hplaced, hnodup, ?_, ?_⟩
    case refine_1 => exact hcol ▸ hpend
    case refine_2 =>
      refine .trans ?_ ((perm_complete hperm).map (texts all)).symm
      rw [List.map_append, hout]
      refine h.delivered.append (.of_eq ?_)
      split <;> rfl

theorem Laid.runs (hd : Distinct (ids all) (texts all)) (hr : Readable (ids all) (texts all))
    (h : Runs {} t) (ha : t.accepted <+: all) : ∃ l left, Laid all t l left := by
  induction h
  case refl            => exact ⟨_, _, laid_start all⟩
  case tail hs hrest   =>
    obtain ⟨l, left, hl⟩ := hrest <| hs.accepted_prefix.trans ha
    exact hl.step hd hr hs ha

-- No text comes out which was not put in, and none comes out twice. Once all packets have
-- arrived, all texts have come out.
theorem transports (h : Runs {} t) (hd : Distinct (ids t.accepted) (texts t.accepted))
    (hr : Readable (ids t.accepted) (texts t.accepted)) :
    t.delivered.Subperm (t.accepted.map Prod.snd) ∧
    (t.sender.msgQueue = [] → t.channel = [] → t.lost = [] →
      t.delivered.Perm (t.accepted.map Prod.snd)) := by
  obtain ⟨l, left, hl⟩ := Laid.runs hd hr h (List.prefix_refl _)
  have hall : (List.finRange t.accepted.length).map (texts t.accepted) =
      t.accepted.map Prod.snd := by
    refine List.ext_getElem (by simp) fun k _ _ => ?_
    simp [texts]
  refine ⟨?_, fun hq hc hlost => ?_⟩
  case refine_1 =>
    rw [← hall]
    exact hl.delivered.subperm.trans <| (List.filter_sublist.map _).subperm
  case refine_2 =>
    rw [← hall]
    have hn : left = [] := by
      rw [hl.queued, List.map_eq_nil_iff] at hq
      rw [hl.flying, List.map_eq_nil_iff] at hc
      rw [hl.lost, List.map_eq_nil_iff] at hlost
      refine List.Perm.eq_nil (hl.perm.trans (.of_eq ?_))
      rw [hq, hc, hlost]
      exact List.filter_eq_nil_iff.mpr fun pos _ => by simp
    subst hn
    simpa [complete] using hl.delivered

end Layout

open NodeConnection

-- What is on the way can arrive.
theorem exists_arrived (t : Transport) : ∃ t', Runs t t' ∧ t'.channel = [] ∧
    t'.sender = t.sender ∧ t'.lost = t.lost ∧ t'.accepted = t.accepted := by
  generalize hc : t.channel = channel
  induction channel generalizing t
  case nil => exact ⟨t, .refl, hc, rfl, rfl, rfl⟩
  case cons s channel hi =>
    generalize hm : t.receiver.message plainEnv (.outgoing (.text s)) = r
    obtain ⟨nc, out⟩ := r
    obtain ⟨t', hr, hc', hs, hl, ha⟩ := hi { t with
      receiver  := nc
      channel   := channel
      delivered := t.delivered ++ out.filterMap NCOutput.text?
    } rfl
    have hp : (NCInput.outgoing (.text s)).packet? = some s := rfl
    have hsplit : t.channel = [] ++ s :: channel := hc
    exact ⟨t', .head (.arrive hp hsplit hm) hr, hc', hs, hl, ha⟩

-- A text which comes while a channel is open and nothing waits goes out at once.
theorem step_of_open {t : Transport} {dir : Direction} (hq : t.sender.msgQueue = [])
    (hr : t.sender.route = some dir) (env : NodeConnection.Env) (msg : String) :
    Step t { t with
      channel  := t.channel ++ Packet.splitMsg env.rnd msg
      accepted := t.accepted ++ [(env.rnd, msg)]
    } := by
  have hm : t.sender.message env (.text msg) =
      (t.sender, (Packet.splitMsg env.rnd msg).map fun s => NCOutput.to (.text s) dir) := by
    change sendQueue { t.sender with
      msgQueue := t.sender.msgQueue ++ Packet.splitMsg env.rnd msg } = _
    have hr' : route { t.sender with
      msgQueue := t.sender.msgQueue ++ Packet.splitMsg env.rnd msg } = some dir := hr
    rw [sendQueue_eq, hr']
    simp only [hq, List.nil_append]
    rw [← hq]
  have hs := Step.send hm
  rw [List.filterMap_map, Function.comp_def] at hs
  simp only [NCOutput.packet?_to, List.filterMap_some] at hs
  exact hs

end Transport

namespace Transport

open PacketCollector NodeConnection

def sendEnv (rnd : U256) : NodeConnection.Env where
  rnd    := rnd
  rehash := .same

-- Two messages are sent through an open channel.
def sending [PacketSerde] (all : List (U256 × String)) : Transport where
  sender   := setState {} opened .outgoing
  channel  := all.flatMap fun a => Packet.splitMsg a.1 a.2
  accepted := all

theorem runs_sending [PacketSerde] (all : List (U256 × String)) : Runs {} (sending all) := by
  induction all using List.reverseRecOn
  case nil =>
    have hc : ({} : NodeConnection).message plainEnv (.outgoing .connected) =
        (setState {} opened .outgoing, [.connected .outgoing]) := rfl
    exact .single <| Step.send (t := {}) hc
  case append_singleton all a hi =>
    refine hi.tail ?_
    have hs := step_of_open (t := sending all) rfl rfl (sendEnv a.1) a.2
    have hc : (all ++ [a]).flatMap (fun a => Packet.splitMsg a.1 a.2) =
        all.flatMap (fun a => Packet.splitMsg a.1 a.2) ++ Packet.splitMsg a.1 a.2 := by
      rw [List.flatMap_append, List.flatMap_singleton]
    unfold sending
    rw [hc]
    exact hs

attribute [local instance] longSerde

def sentLong : List (U256 × String) :=
  [(longIds 0, longMessages 0), (longIds 1, longMessages 1)]

theorem ids_sentLong : ids sentLong = longIds :=
  funext <| Fin.forall_fin_two.mpr ⟨rfl, rfl⟩

theorem texts_sentLong : texts sentLong = longMessages := by
  have hpair : ∀ a b : U256 × String, texts [a, b] 0 = a.2 ∧ texts [a, b] 1 = b.2 :=
    fun _ _ => ⟨rfl, rfl⟩
  exact funext <| Fin.forall_fin_two.mpr <| hpair _ _

theorem readable_sentLong : Readable (ids sentLong) (texts sentLong) := by
  rw [ids_sentLong, texts_sentLong]
  exact readable_long

theorem transports_long :
    ∃ t, Runs {} t ∧ t.delivered.Perm [longMessages 0, longMessages 1] := by
  obtain ⟨t, hr, hc, hs, hl, ha⟩ := exists_arrived (sending sentLong)
  have hd : Distinct (ids t.accepted) (texts t.accepted) := by
    rw [ha]
    intro i j hij _ _ he
    exact hij <| longIds_inj <| ((congrFun ids_sentLong i).symm.trans he).trans <|
      congrFun ids_sentLong j
  have hread : Readable (ids t.accepted) (texts t.accepted) := ha ▸ readable_sentLong
  have ht : Runs {} t := (runs_sending sentLong).trans hr
  refine ⟨t, ht, ?_⟩
  have hp := (transports ht hd hread).2 (by rw [hs]; rfl) hc hl
  rwa [ha] at hp

end Transport
