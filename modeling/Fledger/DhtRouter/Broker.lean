import Fledger.Flo.Realm

-- `serde_yaml`, for one type.
class Yaml (α : Type*) where
  toString : α → Option String
  fromStr  : String → Option α

-- The value can be written, and it is read back as it was.
def Yaml.Lossless {α : Type*} [Yaml α] (a : α) : Prop :=
  ∃ s, Yaml.toString a = some s ∧ Yaml.fromStr s = some a

-- What is read is what was written.
def Yaml.Faithful (α : Type*) [Yaml α] : Prop :=
  ∀ a : α, ∀ s, Yaml.toString a = some s → ∀ b, Yaml.fromStr s = some b → b = a

-- What is read has the contents of what was written.
def Yaml.Rereads {α β : Type*} [Yaml α] (c : α → β) : Prop :=
  ∀ a : α, ∀ s, Yaml.toString a = some s → ∀ b, Yaml.fromStr s = some b → c b = c a

theorem Yaml.Faithful.rereads {α β : Type*} [Yaml α] (h : Yaml.Faithful α) (c : α → β) :
    Yaml.Rereads c :=
  fun a s ha b hb => congrArg c (h a s ha b hb)

section

open Classical

-- Only what is in the table can be written.
noncomputable abbrev Yaml.table {α : Type*} (entries : List (α × String)) : Yaml α where
  toString a := (entries.find? fun e => e.1 = a).map Prod.snd
  fromStr s  := (entries.find? fun e => e.2 = s).map Prod.fst

theorem Yaml.table_faithful {α : Type*} {entries : List (α × String)}
    (h : (entries.map Prod.snd).Nodup) : @Yaml.Faithful α (.table entries) := by
  intro a s ha b hb
  obtain ⟨e, he, rfl⟩ := Option.map_eq_some_iff.mp ha
  obtain ⟨e', he', rfl⟩ := Option.map_eq_some_iff.mp hb
  have ha := List.find?_some he
  have hb := List.find?_some he'
  simp only [decide_eq_true_eq] at ha hb
  have hmem := List.mem_of_find?_eq_some he
  have hmem' := List.mem_of_find?_eq_some he'
  rw [List.inj_on_of_nodup_map h hmem' hmem hb, ha]

theorem Yaml.table_lossless {α : Type*} {entries : List (α × String)}
    (h : (entries.map Prod.snd).Nodup) {a : α} {s : String} (hm : (a, s) ∈ entries) :
    @Yaml.Lossless α (.table entries) a := by
  have hsome : (entries.find? fun e => e.1 = a).isSome :=
    List.find?_isSome.mpr ⟨(a, s), hm, decide_eq_true rfl⟩
  obtain ⟨e, he⟩ := Option.isSome_iff_exists.mp hsome
  have hsome' : (entries.find? fun e' => e'.2 = e.2).isSome :=
    List.find?_isSome.mpr ⟨e, List.mem_of_find?_eq_some he, decide_eq_true rfl⟩
  obtain ⟨e', he'⟩ := Option.isSome_iff_exists.mp hsome'
  have ha := List.find?_some he
  have hs := List.find?_some he'
  simp only [decide_eq_true_eq] at ha hs
  have hmem := List.mem_of_find?_eq_some he
  have hmem' := List.mem_of_find?_eq_some he'
  refine ⟨e.2, congrArg (Option.map Prod.snd) he, ?_⟩
  refine (congrArg (Option.map Prod.fst) he').trans ?_
  rw [List.inj_on_of_nodup_map h hmem' hmem hs, Option.map_some, ha]

end

-- The wrapper of the module `router`, in which all modules send their messages.
structure NetworkWrapper where
  moduleName : String
  msg        : String
deriving DecidableEq

namespace NetworkWrapper

variable {α : Type*} [Yaml α]

def wrapYaml (moduleName : String) (msg : α) : Option NetworkWrapper :=
  (Yaml.toString msg).map fun msg => { moduleName, msg }

def unwrapYaml (α : Type*) [Yaml α] (w : NetworkWrapper) (moduleName : String) : Option α :=
  if w.moduleName = moduleName then Yaml.fromStr w.msg else none

theorem wrapYaml_of_lossless {msg : α} (h : Yaml.Lossless msg) (name : String) :
    ∃ w, wrapYaml name msg = some w ∧ w.unwrapYaml α name = some msg := by
  have ⟨s, hs, hm⟩ := h
  exact ⟨{ moduleName := name, msg := s }, by simp [wrapYaml, hs], by simp [unwrapYaml, hm]⟩

theorem unwrapYaml_of_wrapYaml {msg : α} {name : String} {w : NetworkWrapper}
    (h : Yaml.Lossless msg) (hw : wrapYaml name msg = some w) :
    w.unwrapYaml α name = some msg := by
  have ⟨w', hw', hm⟩ := wrapYaml_of_lossless h name
  rwa [Option.some.inj (hw.symm.trans hw')]

theorem contents_of_unwrapYaml {β : Type*} {c : α → β} {msg msg' : α} {name name' : String}
    {w : NetworkWrapper} (h : Yaml.Rereads c) (hw : wrapYaml name msg = some w)
    (hu : w.unwrapYaml α name' = some msg') : c msg' = c msg := by
  obtain ⟨s, hs, rfl⟩ := Option.map_eq_some_iff.mp hw
  unfold unwrapYaml at hu
  split at hu
  case isTrue  => exact h msg s hs msg' hu
  case isFalse => cases hu

theorem eq_of_unwrapYaml {msg msg' : α} {name name' : String} {w : NetworkWrapper}
    (h : Yaml.Faithful α) (hw : wrapYaml name msg = some w)
    (hu : w.unwrapYaml α name' = some msg') : msg' = msg :=
  contents_of_unwrapYaml (h.rereads id) hw hu

end NetworkWrapper

inductive DHTRouterIn
  | messageBroadcast (msg : NetworkWrapper)
  | messageNeighbour (dst : NodeID) (msg : NetworkWrapper)
  | messageClosest (key : U256) (msg : NetworkWrapper)
  | messageDirect (dst : NodeID) (msg : NetworkWrapper)

inductive DHTRouterOut
  | messageNeighbour (origin : NodeID) (msg : NetworkWrapper)
  | messageRouting (origin lastHop nextHop : NodeID) (key : U256) (msg : NetworkWrapper)
  | messageClosest (origin lastHop : NodeID) (key : U256) (msg : NetworkWrapper)
  | messageDest (origin lastHop : NodeID) (msg : NetworkWrapper)
  | nodeList (nodes : List NodeID)
  | systemRealm (realmId : RealmID)
