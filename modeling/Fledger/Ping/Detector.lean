import Mathlib.Data.List.DropRight
import Fledger.Ping.Messages

namespace Ping

def PingConfig.limit (config : PingConfig) : Nat :=
  max 1 (config.interval.toNat + config.timeout.toNat)

namespace Messages

def Monitored (id : NodeID) (m : Messages) : Prop :=
  id ∈ m.storage.stats

abbrev after (config : PingConfig) (history : List PingIn) : Messages :=
  history.foldl next (new config)

-- The node is monitored without interruption since the event `e`.
abbrev MonitoredSince (config : PingConfig) (id : NodeID) :=
  Since next (new config) (Monitored id)

-- The ticks since the later of the addition of a node and its last pong, when `recent` are the
-- messages after its addition.
def ticksSince (id : NodeID) (recent : List PingIn) : Nat :=
  (recent.rtakeWhile (· ≠ .fromNetwork id .pong)).count .tick

-- With the next tick, the node has not answered for the whole delay.
def Overdue (config : PingConfig) (id : NodeID) (history : List PingIn) : Prop :=
  ∃ old e recent, history = old ++ e :: recent ∧ MonitoredSince config id old e recent ∧
    ticksSince id recent + 1 = config.limit

-- A pong of the node comes in every stretch of the whole delay through which it is monitored.
def Answers (config : PingConfig) (id : NodeID) (msgs : List PingIn) : Prop :=
  ∀ old stretch rest, msgs = old ++ (stretch ++ [.tick]) ++ rest →
    (stretch ++ [.tick]).count .tick = config.limit →
    (∀ pre, pre <+: stretch → Monitored id (after config (old ++ pre))) →
    .fromNetwork id .pong ∈ stretch

variable {config : PingConfig} {id : NodeID} {old recent history msgs : List PingIn} {e : PingIn}

theorem config_foldl (m : Messages) (msgs : List PingIn) :
    (msgs.foldl next m).storage.config = m.storage.config := by
  induction msgs generalizing m
  case nil            => rfl
  case cons msg _ hi => exact (hi _).trans config_next

theorem lookup_concat (history : List PingIn) (msg : PingIn) :
    (after config (history ++ [msg])).storage.stats.lookup id =
      msg.next config id ((after config history).storage.stats.lookup id) := by
  rw [after, List.foldl_append, List.foldl_cons, List.foldl_nil, lookup_next, config_foldl]
  rfl

theorem ticksSince_concat (msg : PingIn) :
    ticksSince id (recent ++ [msg]) =
      if msg = .fromNetwork id .pong then 0
      else ticksSince id recent + if msg = .tick then 1 else 0 := by
  rw [ticksSince]
  split
  case isTrue h  => simp [h]
  case isFalse h =>
    have ht := List.rtakeWhile_concat_pos (fun a => decide (a ≠ .fromNetwork id .pong)) recent msg
      (decide_eq_true h)
    rw [ht, List.count_append, List.count_singleton]
    simp [ticksSince]

-- Whoever is not monitored can only be added.
theorem PingIn.eq_new {msg : PingIn} {stat : PingStat} (h : msg.next config id none = some stat) :
    stat = .new := by
  cases msg
  case fromNetwork i msg =>
    cases msg
    case ping => cases h
    case pong =>
      rw [PingIn.next] at h
      split at h <;> cases h
      rfl
  case updateNodeList ids =>
    rw [PingIn.next] at h
    split at h <;> cases h
    rfl
  case disconnectNode i =>
    rw [PingIn.next] at h
    split at h <;> cases h
  case tick => cases h

theorem MonitoredSince.lookup_start (h : MonitoredSince config id old e recent) :
    (after config (old ++ [e])).storage.stats.lookup id = some .new := by
  have ⟨stat, hl⟩ := HashMap.mem_iff_lookup.mp <| h.during [] List.nil_prefix
  have hn := HashMap.not_mem_iff_lookup.mp h.before
  rw [hl]
  rw [lookup_concat, hn] at hl
  rw [PingIn.eq_new hl]

theorem toNat_succ {stat : PingStat} (hc : config.interval.toNat + config.timeout.toNat < 2 ^ 32)
    (hl : stat.lastping.toNat < config.limit) :
    (stat.lastping + 1).toNat = stat.lastping.toNat + 1 := by
  rw [PingConfig.limit] at hl
  rw [UInt32.toNat_add]
  exact Nat.mod_eq_of_lt (by simp; omega)

theorem failed_iff {stat : PingStat} (hc : config.interval.toNat + config.timeout.toNat < 2 ^ 32)
    (hl : stat.lastping.toNat < config.limit) :
    stat.failed config ↔ stat.lastping.toNat + 1 = config.limit := by
  have hs := toNat_succ hc hl
  rw [PingConfig.limit] at hl ⊢
  have ha : (config.timeout + config.interval).toNat =
      config.timeout.toNat + config.interval.toNat := by
    rw [UInt32.toNat_add]
    omega
  rw [PingStat.failed, decide_eq_true_iff, ge_iff_le, UInt32.le_iff_toNat_le, ha, hs]
  omega

-- The rule for the entry of a node while it is monitored.
theorem MonitoredSince.stat {Q : List PingIn → PingStat → Prop}
    (h : MonitoredSince config id old e recent) (start : Q [] .new)
    (next : ∀ recent msg stat stat',
      (after config (old ++ e :: recent)).storage.stats.lookup id = some stat →
      Q recent stat → msg.next config id (some stat) = some stat' → Q (recent ++ [msg]) stat') :
    ∃ stat, (after config (old ++ e :: recent)).storage.stats.lookup id =
      some stat ∧ Q recent stat := by
  refine Since.induction (Q := fun recent => ∃ stat,
    (after config (old ++ e :: recent)).storage.stats.lookup id = some stat ∧ Q recent stat) h
    ?start fun recent msg h hp hi => ?next
  case start => exact ⟨.new, h.lookup_start, start⟩
  case next =>
    obtain ⟨stat, hl, hq⟩ := hi
    obtain ⟨stat', hl'⟩ := HashMap.mem_iff_lookup.mp hp
    refine ⟨stat', hl', next recent msg stat stat' hl hq ?_⟩
    rw [← hl, ← lookup_concat, ← hl']
    simp

-- What can happen to the entry of a node which stays monitored.
theorem PingIn.next_some {msg : PingIn} {stat stat' : PingStat}
    (h : msg.next config id (some stat) = some stat') :
    (msg = .tick ∧ stat.failed config = false ∧ stat' = stat.countdown config) ∨
      (msg = .fromNetwork id .pong ∧ stat' = { stat with lastping := 0, rx := stat.rx + 1 }) ∨
      (msg ≠ .tick ∧ msg ≠ .fromNetwork id .pong ∧ stat' = stat) := by
  cases msg
  case tick =>
    cases hf : stat.failed config <;> simp [PingIn.next, hf] at h
    exact .inl ⟨rfl, rfl, h.symm⟩
  case fromNetwork i msg =>
    cases msg
    case ping =>
      cases h
      exact .inr <| .inr ⟨by simp, by simp, rfl⟩
    case pong =>
      by_cases hi : id = i
      case pos =>
        subst hi
        rw [PingIn.next, if_pos rfl] at h
        exact .inr <| .inl ⟨rfl, (Option.some.inj h).symm⟩
      case neg =>
        rw [PingIn.next, if_neg hi] at h
        exact .inr <| .inr ⟨by simp, by simp [Ne.symm hi], (Option.some.inj h).symm⟩
  case updateNodeList ids =>
    by_cases hi : id ∈ ids <;> simp [PingIn.next, hi] at h
    exact .inr <| .inr ⟨by simp, by simp, h.symm⟩
  case disconnectNode i =>
    by_cases hi : id = i <;> simp [PingIn.next, hi] at h
    exact .inr <| .inr ⟨by simp, by simp, h.symm⟩

-- While a node is monitored, `lastping` counts the ticks.
theorem MonitoredSince.lastping (h : MonitoredSince config id old e recent)
    (hc : config.interval.toNat + config.timeout.toNat < 2 ^ 32) :
    ∃ stat, (after config (old ++ e :: recent)).storage.stats.lookup id = some stat ∧
      stat.lastping.toNat = ticksSince id recent ∧ stat.lastping.toNat < config.limit := by
  refine h.stat (Q := fun recent stat => stat.lastping.toNat = ticksSince id recent ∧
    stat.lastping.toNat < config.limit) ⟨rfl, Nat.le_max_left _ _⟩ ?_
  intro recent msg stat stat' _ hq hn
  have ⟨ht, hb⟩ := hq
  rw [ticksSince_concat]
  obtain ⟨rfl, hf, rfl⟩ | ⟨rfl, rfl⟩ | ⟨hm, hm', rfl⟩ := PingIn.next_some hn
  case inl =>
    have hf := mt (failed_iff hc hb).mpr (Bool.not_eq_true _ |>.mpr hf)
    have hs := toNat_succ hc hb
    simp only [PingStat.countdown, hs, ht] at hf ⊢
    simp only [reduceCtorEq, if_false, if_true, true_and]
    omega
  case inr.inl => exact ⟨by simp, Nat.le_max_left _ _⟩
  case inr.inr =>
    rw [if_neg hm', if_neg hm]
    exact hq

-- All ids which are monitored have been added at some time.
theorem exists_monitoredSince (h : Monitored id (after config history)) :
    ∃ old e recent, history = old ++ e :: recent ∧ MonitoredSince config id old e recent :=
  Since.exists_of_holds (fun hm => by cases AList.mem_keys.mp hm) h

theorem overdue_iff (hc : config.interval.toNat + config.timeout.toNat < 2 ^ 32) :
    Overdue config id history ↔
      ((after config history).storage.stats.lookup id).any (·.failed config) := by
  constructor
  case mp =>
    intro h
    obtain ⟨old, e, recent, rfl, hs, ht⟩ := h
    have ⟨stat, hl, hn, hb⟩ := hs.lastping hc
    rw [hl]
    exact failed_iff hc hb |>.mpr (hn ▸ ht)
  case mpr =>
    intro h
    have ⟨stat, hl, hf⟩ := Option.any_eq_true _ _ |>.mp h
    obtain ⟨old, e, recent, rfl, hs⟩ :=
      exists_monitoredSince (HashMap.mem_iff_lookup.mpr ⟨stat, hl⟩)
    have ⟨stat', hl', hn, hb⟩ := hs.lastping hc
    cases Option.some.inj (hl.symm.trans hl')
    exact ⟨old, e, recent, rfl, hs, hn ▸ (failed_iff hc hb |>.mp hf)⟩

theorem mem_messages {m : Messages} {out : PingOut} :
    out ∈ (m.messages msgs).2 ↔
      ∃ history msg rest, msgs = history ++ msg :: rest ∧
        out ∈ ((history.foldl next m).processMsg msg).2 := by
  induction msgs generalizing m
  case nil => simp [messages]
  case cons msg msgs hi =>
    rw [messages, List.mem_append, hi]
    constructor
    case mp =>
      intro h
      cases h
      case inl h => exact ⟨[], msg, msgs, rfl, h⟩
      case inr h =>
        obtain ⟨history, msg', rest, rfl, h⟩ := h
        exact ⟨msg :: history, msg', rest, rfl, h⟩
    case mpr =>
      intro h
      obtain ⟨history, msg', rest, he, h⟩ := h
      cases history
      case nil =>
        cases he
        exact .inl h
      case cons =>
        cases he
        exact .inr ⟨_, msg', rest, rfl, h⟩

-- A node which has not answered for the whole delay is silent in the stretch since its last pong.
theorem not_overdue_of_answers {rest : List PingIn}
    (h : Answers config id (history ++ .tick :: rest)) : ¬Overdue config id history := by
  intro ho
  obtain ⟨old, e, recent, rfl, hs, ht⟩ := ho
  let stretch := recent.rtakeWhile (· ≠ .fromNetwork id .pong)
  let before := recent.rdropWhile (· ≠ .fromNetwork id .pong)
  have hr : before ++ stretch = recent := List.rdropWhile_append_rtakeWhile
  have hp : .fromNetwork id .pong ∈ stretch := by
    apply h (old ++ e :: before) stretch rest
    case a => simp [← hr]
    case a =>
      rw [List.count_append]
      exact ht
    case a =>
      intro pre hpre
      have hp : before ++ pre <+: recent := by
        rw [← hr]
        exact List.prefix_append_right_inj _ |>.mpr hpre
      have hm := hs.during (before ++ pre) hp
      rwa [← List.cons_append, ← List.append_assoc] at hm
  have hn := List.mem_rtakeWhile_imp hp
  simp at hn

-- A failure is reported at the tick which completes the delay, once, and never for a node which
-- answers.
theorem failed_exact (config : PingConfig)
    (hc : config.interval.toNat + config.timeout.toNat < 2 ^ 32) (id : NodeID) :
    (∀ history msg,
      (.failed id ∈ ((after config history).processMsg msg).2 ↔
        msg = .tick ∧ Overdue config id history) ∧
      (.failed id ∈ ((after config history).processMsg msg).2 →
        ((after config history).processMsg msg).2.count (.failed id) = 1 ∧
          ¬Monitored id (after config (history ++ [msg])))) ∧
    ∀ msgs, Answers config id msgs → .failed id ∉ ((new config).messages msgs).2 := by
  have hf (history : List PingIn) (msg : PingIn) :
      .failed id ∈ ((after config history).processMsg msg).2 ↔
        msg = .tick ∧ Overdue config id history := by
    rw [← List.count_pos_iff, count_failed, overdue_iff hc, config_foldl]
    split <;> simp_all [new, PingStorage.new]
  refine ⟨fun history msg => ⟨hf history msg, fun hm => ⟨?once, ?removed⟩⟩,
    fun msgs ha hm => ?never⟩
  case once =>
    have hp := List.count_pos_iff.mpr hm
    rw [count_failed] at hp ⊢
    split at hp
    case isTrue h  => exact if_pos h
    case isFalse h => cases hp
  case removed =>
    obtain ⟨rfl, ho⟩ := hf history msg |>.mp hm
    have ⟨stat, hl, hs⟩ := Option.any_eq_true _ _ |>.mp (overdue_iff hc |>.mp ho)
    refine HashMap.not_mem_iff_lookup.mpr ?_
    rw [lookup_concat, hl, PingIn.next, Option.bind_some, if_pos hs]
  case never =>
    obtain ⟨history, msg, rest, rfl, hm'⟩ := mem_messages.mp hm
    obtain ⟨rfl, ho⟩ := hf history msg |>.mp hm'
    exact not_overdue_of_answers ha ho

end Messages

section Concrete

open Ping.Messages

def silentNode : NodeID :=
  U256.ofPrefix [7]

-- With an interval of one tick and a timeout of two, a node which never answers fails at the third
-- tick.
theorem failed_silentNode :
    Overdue ⟨1, 2⟩ silentNode [.updateNodeList [silentNode], .tick, .tick] ∧
      ((after ⟨1, 2⟩ [.updateNodeList [silentNode], .tick, .tick]).processMsg .tick).2.count
        (.failed silentNode) = 1 := by
  have h := (failed_exact ⟨1, 2⟩ (by decide) silentNode).1
    [.updateNodeList [silentNode], .tick, .tick] .tick
  have hm : .failed silentNode ∈
      ((after ⟨1, 2⟩ [.updateNodeList [silentNode], .tick, .tick]).processMsg .tick).2 := by
    decide +kernel
  exact ⟨(h.1.mp hm).2, (h.2 hm).1⟩

end Concrete

end Ping
