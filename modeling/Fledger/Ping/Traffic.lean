import Fledger.Ping.Detector

namespace Ping.Messages

variable {config : PingConfig} {id : NodeID} {old recent history : List PingIn} {e : PingIn}

-- The pings to a node which have been sent for the messages `recent`.
def emitted (config : PingConfig) (id : NodeID) (old : List PingIn) (e : PingIn)
    (recent : List PingIn) : Nat :=
  ((after config (old ++ [e])).messages recent).2.count (.toNetwork id .ping)

theorem emitted_concat (msg : PingIn) :
    emitted config id old e (recent ++ [msg]) =
      emitted config id old e recent +
        ((after config (old ++ e :: recent)).processMsg msg).2.count (.toNetwork id .ping) := by
  have ha : ((after config (old ++ [e])).messages recent).1 =
      after config (old ++ e :: recent) := by
    rw [messages_eq_foldl, after, after, ← List.foldl_append]
    simp
  rw [emitted, messages_append, List.count_append, ha]
  simp [emitted, messages]

theorem after_concat (history : List PingIn) (msg : PingIn) :
    after config (history ++ [msg]) = (after config history).next msg := by
  rw [after, List.foldl_append]
  rfl

theorem ofNat_succ (n : Nat) : UInt32.ofNat (n + 1) = UInt32.ofNat n + 1 := by
  rw [UInt32.ofNat_add]
  rfl

-- The first ping is counted when the node is added, all others when they are sent.
theorem MonitoredSince.counters (h : MonitoredSince config id old e recent) :
    ∃ stat, (after config (old ++ e :: recent)).storage.stats.lookup id = some stat ∧
      stat.tx = UInt32.ofNat (emitted config id old e recent + 1) ∧
      stat.rx = UInt32.ofNat (recent.count (.fromNetwork id .pong)) := by
  refine h.stat (Q := fun recent stat =>
    stat.tx = UInt32.ofNat (emitted config id old e recent + 1) ∧
    stat.rx = UInt32.ofNat (recent.count (.fromNetwork id .pong))) ⟨rfl, rfl⟩ ?_
  intro recent msg stat stat' hl hq hn
  have ⟨ht, hr⟩ := hq
  rw [emitted_concat, count_ping, hl, config_foldl, List.count_append, List.count_singleton]
  obtain ⟨rfl, hf, rfl⟩ | ⟨rfl, rfl⟩ | ⟨hm, hm', rfl⟩ := PingIn.next_some hn
  case inl =>
    cases hp : stat.pinged config
    case false => simp [PingStat.countdown, new, PingStorage.new, hp, ht, hr]
    case true  => simp [PingStat.countdown, new, PingStorage.new, hp, ht, hr, ofNat_succ]
  case inr.inl => simp [ht, hr, ofNat_succ]
  case inr.inr => simp [hm, hm', ht, hr]

-- Only the first ping of a node is waiting before the first tick.
theorem MonitoredSince.count_queue (h : MonitoredSince config id old e recent) :
    (after config (old ++ e :: recent)).storage.ping.count id =
      if .tick ∈ recent then 0 else (after config old).storage.ping.count id + 1 := by
  refine Since.induction (Q := fun recent =>
    (after config (old ++ e :: recent)).storage.ping.count id =
      if .tick ∈ recent then 0 else (after config old).storage.ping.count id + 1) h
    ?start fun recent msg h hp hi => ?next
  case start =>
    have he : e ≠ .tick := by
      intro he
      have hl := h.lookup_start
      rw [he, lookup_concat, HashMap.not_mem_iff_lookup.mp h.before] at hl
      cases hl
    have hm : Monitored id (after config (old ++ [e])) := h.during [] List.nil_prefix
    rw [after_concat] at hm
    rw [after_concat, count_queued, if_neg he, if_pos ⟨h.before, hm⟩]
    rfl
  case next =>
    have ha : old ++ e :: (recent ++ [msg]) = (old ++ e :: recent) ++ [msg] := by simp
    rw [ha, after_concat, count_queued, hi]
    have hn : ¬(id ∉ (after config (old ++ e :: recent)).storage.stats ∧
        id ∈ ((after config (old ++ e :: recent)).next msg).storage.stats) := fun hn =>
      hn.left h.holds
    rw [if_neg hn]
    by_cases hm : msg = .tick <;> simp [hm, eq_comm (a := PingIn.tick)]

theorem emitted_eq_zero (h : .tick ∉ recent) : emitted config id old e recent = 0 := by
  refine List.count_eq_zero.mpr fun hm => ?_
  obtain ⟨history, msg, rest, rfl, hm'⟩ := mem_messages.mp hm
  have hp := List.count_pos_iff.mpr hm'
  rw [count_ping] at hp
  split at hp
  case isTrue ht  => exact h (by simp [ht.left])
  case isFalse ht => cases hp

-- The counters agree with the messages until the first tick discards the ping which is waiting.
theorem traffic_exact (config : PingConfig) (history : List PingIn) (id : NodeID) (stat : PingStat)
    (hl : (after config history).storage.stats.lookup id = some stat) :
    ∃ old e recent, history = old ++ e :: recent ∧ MonitoredSince config id old e recent ∧
      ((stat.tx.toNat = emitted config id old e recent +
          (after config history).storage.ping.count id ∧
        stat.rx.toNat = recent.count (.fromNetwork id .pong)) ↔
      .tick ∉ recent ∧ id ∉ (after config old).storage.ping ∧
        recent.count (.fromNetwork id .pong) < 2 ^ 32) := by
  obtain ⟨old, e, recent, rfl, hs⟩ := exists_monitoredSince (HashMap.mem_iff_lookup.mpr ⟨stat, hl⟩)
  have ⟨stat', hl', ht, hr⟩ := hs.counters
  cases Option.some.inj (hl.symm.trans hl')
  refine ⟨old, e, recent, rfl, hs, ?_⟩
  have hq : id ∉ (after config old).storage.ping ↔ (after config old).storage.ping.count id = 0 :=
    List.count_eq_zero.symm
  rw [ht, hr, hs.count_queue, UInt32.toNat_ofNat', UInt32.toNat_ofNat', hq]
  by_cases hm : .tick ∈ recent
  case pos =>
    simp only [hm, if_true, not_true_eq_false, false_and, iff_false]
    omega
  case neg =>
    simp only [hm, if_false, not_false_eq_true, true_and, emitted_eq_zero hm]
    omega

section Concrete

-- The first ping is never sent, but counted.
theorem discarded_ping :
    ∃ stat, (after .default [.updateNodeList [silentNode], .tick]).storage.stats.lookup silentNode =
        some stat ∧ stat.tx = 1 ∧
      ((new .default).messages [.updateNodeList [silentNode], .tick]).2 = [] ∧
      (after .default [.updateNodeList [silentNode], .tick]).storage.ping = [] :=
  ⟨{ lastping := 1, rx := 0, tx := 1 }, by decide +kernel, rfl, by decide +kernel,
    by decide +kernel⟩

theorem traffic_silentNode :
    ∃ old e recent,
      [.updateNodeList [silentNode], .fromNetwork silentNode .pong] = old ++ e :: recent ∧
      MonitoredSince .default silentNode old e recent ∧
      ((UInt32.toNat 1 = emitted .default silentNode old e recent +
          (after .default [.updateNodeList [silentNode],
            .fromNetwork silentNode .pong]).storage.ping.count silentNode ∧
        UInt32.toNat 1 = recent.count (.fromNetwork silentNode .pong)) ↔
      .tick ∉ recent ∧ silentNode ∉ (after .default old).storage.ping ∧
        recent.count (.fromNetwork silentNode .pong) < 2 ^ 32) :=
  traffic_exact .default [.updateNodeList [silentNode], .fromNetwork silentNode .pong] silentNode
    { lastping := 0, rx := 1, tx := 1 } (by decide +kernel)

end Concrete

end Ping.Messages
