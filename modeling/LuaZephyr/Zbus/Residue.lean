import LuaZephyr.Zbus.Methods
import LuaZephyr.Zbus.Kernel
import LuaZephyr.MsgDescr.Supplied

/-!
# What a published message depends on

The message buffer of `channel:pub` starts with whatever its block held before, and
the decoder skips the leaves the table does not supply. A published message depends
only on the table exactly when the table supplies every leaf.

What the heap held before is a parameter, so the statements are about every such content. The
bytes between the members of a struct, and any that no field describes, always keep it; whether
a receiver looks at them is not modelled.
-/

namespace LuaZephyr

open Outcome Patch

variable {β : Type}

/-- The value a C program reads in a leaf: the bytes of a number or pointer, the truth
of a BOOL, the text of a STRING_BUF. -/
inductive LeafValue where
  | word (bytes : Bytes)
  | truth (b : Bool)
  | text (s : Bytes)
  deriving DecidableEq, Repr

def Leaf.value (m : Bytes) (leaf : Leaf) : LeafValue :=
  match leaf.type with
  | .bool => .truth (slice m leaf.start leaf.size.toNat ≠ [0])
  | .stringBuf => .text (CString.text (slice m leaf.start leaf.size.toNat))
  | _ => .word (slice m leaf.start leaf.size.toNat)

variable (tgt : Target) (zb : Zbus β)

/-- The call hands the message `m` to `zbus_chan_pub` when the blocks to come hold `g`
and the API calls find memory as `fails` says. -/
def Hands (chan : Nat) (t v : Value) (s : State (β × List (Nat × Bytes))) (g : Nat → UInt8)
    (fails : Nat → Bool) (m : Bytes) : Prop :=
  ∃ rs u, callMethod (chanPub tgt zb.recording) [.userdata .zbusChannel chan, t, v]
    (s.refilled g fails) = .ok rs u ∧ u.bus.2 = s.bus.2 ++ [(chan, m)]

/-- Two messages handed over for the same call agree in every leaf of `fields`. -/
def PublishesSame (chan : Nat) (fields : List LuaMsgFieldDescr) (t v : Value)
    (s : State (β × List (Nat × Bytes))) : Prop :=
  ∀ g g' fails fails' m m', Hands tgt zb chan t v s g fails m →
    Hands tgt zb chan t v s g' fails' m' → ∀ leaf ∈ leaves fields 0, leaf.value m = leaf.value m'

variable {tgt zb}

theorem Leaf.value_congr {m m' : Bytes} {leaf : Leaf}
    (h : slice m leaf.start leaf.size.toNat = slice m' leaf.start leaf.size.toNat) :
    leaf.value m = leaf.value m' := by
  unfold Leaf.value
  rw [h]

theorem slice_residue {b : UInt8} {n off k : Nat} (h : off + k ≤ n) :
    slice (SysHeap.residue (fun _ => b) n) off k = List.replicate k b := by
  apply List.eq_replicate_iff.mpr
  refine ⟨length_slice (by rw [SysHeap.length_residue]; exact h), fun a ha => ?_⟩
  have hmem := List.mem_of_mem_drop (List.mem_of_mem_take ha)
  obtain ⟨i, -, rfl⟩ := List.mem_map.mp hmem
  rfl

/-- A leaf full of zeros and one full of ones have different values. -/
theorem Leaf.value_ne {m m' : Bytes} {leaf : Leaf} (hsize : 0 < leaf.size.toNat)
    (hbool : leaf.type = .bool → leaf.size.toNat = 1)
    (hm : slice m leaf.start leaf.size.toNat = List.replicate leaf.size.toNat 0)
    (hm' : slice m' leaf.start leaf.size.toNat = List.replicate leaf.size.toNat 1) :
    leaf.value m ≠ leaf.value m' := by
  obtain ⟨k, hk⟩ := Nat.exists_eq_succ_of_ne_zero (Nat.ne_of_gt hsize)
  obtain ⟨path, type, start, size⟩ := leaf
  change size.toNat = k + 1 at hk
  simp only at hbool
  change slice m start size.toNat = _ at hm
  change slice m' start size.toNat = _ at hm'
  rw [hk, List.replicate_succ] at hm hm'
  cases type with
  | bool =>
      obtain rfl : k = 0 := Nat.succ.inj (hk.symm.trans (hbool rfl))
      simp [Leaf.value, hk, hm, hm']
  | stringBuf => simp [Leaf.value, hk, hm, hm', CString.text]
  | _ => simp [Leaf.value, hk, hm, hm']

variable {chan : Nat} {es : Entries} {mt : Option Nat} {v : Value} {timeout : LuaInteger}
variable {descr : LuaMsgDescr} {s : State (β × List (Nat × Bytes))}

/-- A message handed over is the previous contents of its block under the writes of
the table. -/
theorem Hands.message (hv : tgt.toInteger? v = some timeout)
    (hdescr : (zb.chan chan).userData = some descr) {g : Nat → UInt8} {fails : Nat → Bool}
    {m : Bytes} (h : Hands tgt zb chan (.table es mt) v s g fails m) :
    s.heap.freshContents (zb.chan chan).msgSize ≠ none ∧ descr.msgSize ≠ 0 ∧
      ∃ ws, tableWrites tgt descr.fields (.table es mt) 0 = .ok ws ∧
        m = putAll (SysHeap.residue g (zb.chan chan).msgSize) ws := by
  obtain ⟨rs, u, hrun, hbus⟩ := h
  have h := (chanPub_spec tgt zb.recording hv (s.refilled g fails)).of_run_ok hrun
  unfold PubReturns at h
  rw [s.refilled_freshContents, zb.recording_chan] at h
  cases hfresh : s.heap.freshContents (zb.chan chan).msgSize with
  | none =>
      rw [hfresh] at h
      obtain ⟨-, -, hsame⟩ := h
      rw [hsame] at hbus
      simp [State.refilled] at hbus
  | some old =>
      rw [hfresh] at h
      obtain ⟨-, h⟩ := h
      rw [hdescr] at h
      obtain ⟨ws, hws, -, -, -, hpub⟩ := h
      rw [hpub] at hbus
      unfold publish at hbus
      split at hbus
      · simp [State.refilled] at hbus
      · rename_i hpos
        refine ⟨nofun, hpos, ws, hws, ?_⟩
        have hlist := List.append_cancel_left hbus
        exact (Prod.mk.inj (List.cons.inj hlist).1).2.symm

/-- Such a message is handed over as soon as there is a buffer, the lookups raise
nothing and the API calls find memory. -/
theorem hands_of_indexable (hv : tgt.toInteger? v = some timeout)
    (hdescr : (zb.chan chan).userData = some descr)
    (hwf : Describes (SizedLeaf tgt.pointerSize) descr.fields (zb.chan chan).msgSize)
    (hfresh : s.heap.freshContents (zb.chan chan).msgSize ≠ none) (hpos : descr.msgSize ≠ 0)
    {ws : List (Write UInt8)} (hws : tableWrites tgt descr.fields (.table es mt) 0 = .ok ws)
    (g : Nat → UInt8) :
    Hands tgt zb chan (.table es mt) v s g (fun _ => false)
      (putAll (SysHeap.residue g (zb.chan chan).msgSize) ws) := by
  obtain ⟨old, hold⟩ := Option.ne_none_iff_exists'.mp hfresh
  have hbuf := s.refilled_freshContents g (fun _ => false) (zb.chan chan).msgSize
  rw [hold, Option.map_some] at hbuf
  obtain ⟨rs, u, hrun, h⟩ | ⟨e, u, -, buf, descr', hbuf', hdescr', -, -, hcause⟩ :=
    wp_iff.mp (@chanPub_spec _ tgt zb.recording chan es mt v timeout hv
      (s.refilled g fun _ => false))
  · unfold PubReturns at h
    rw [zb.recording_chan, hbuf] at h
    obtain ⟨-, h⟩ := h
    rw [hdescr] at h
    obtain ⟨ws', hws', -, -, -, hpub⟩ := h
    obtain rfl := Except.ok.inj (hws.symm.trans hws')
    refine ⟨rs, u, hrun, ?_⟩
    rw [hpub, publish, if_neg hpos]
    rfl
  · obtain rfl := Option.some.inj (hdescr.symm.trans hdescr')
    obtain ⟨-, hfail⟩ | ⟨err, -, herr⟩ | ⟨-, hfits⟩ := hcause
    · exact absurd (noFail_never _ _) hfail
    · cases hws.symm.trans herr
    · rw [zb.recording_chan] at hfits
      exact absurd (hwf.fits tgt (by rw [Nat.zero_add])) hfits

/-- A published message depends only on the table exactly when the table supplies every
leaf, if the call publishes at all. -/
theorem publishesSame_iff (hv : tgt.toInteger? v = some timeout)
    (hdescr : (zb.chan chan).userData = some descr)
    (hwf : Describes (SizedLeaf tgt.pointerSize) descr.fields (zb.chan chan).msgSize) :
    PublishesSame tgt zb chan descr.fields (.table es mt) v s ↔
      (s.heap.freshContents (zb.chan chan).msgSize ≠ none → descr.msgSize ≠ 0 →
        Indexable tgt descr.fields (.table es mt) →
        ∀ leaf ∈ leaves descr.fields 0, leaf.supplied tgt (.table es mt) = true) := by
  have hrange {leaf : Leaf} (hleaf : leaf ∈ leaves descr.fields 0) :
      leaf.start + leaf.size.toNat ≤ (zb.chan chan).msgSize := by
    have hstop := (leaves_within hwf 0 leaf hleaf).stop_le
    simpa only [Span.stop, Leaf.span, Nat.zero_add] using hstop
  have hwithin {ws : List (Write UInt8)} (g : Nat → UInt8)
      (hws : tableWrites tgt descr.fields (.table es mt) 0 = .ok ws) :
      AllWithin ws (SysHeap.residue g (zb.chan chan).msgSize).length := by
    rw [SysHeap.length_residue]
    exact tableWrites_within tgt (hwf.fits tgt (by rw [Nat.zero_add])) hws
  constructor
  · intro hsame hfresh hpos hindex leaf hleaf
    by_contra hmissing
    obtain ⟨ws, hws⟩ := (tableWrites_ok_iff tgt descr.fields (.table es mt) 0).mpr hindex
    have hslice (g : Nat → UInt8) : slice
        (putAll (SysHeap.residue g (zb.chan chan).msgSize) ws) leaf.start leaf.size.toNat =
          slice (SysHeap.residue g (zb.chan chan).msgSize) leaf.start leaf.size.toNat :=
      slice_putAll_of_apart (hwithin g hws) (tableWrites_avoid hwf hws hleaf hmissing)
    have hok := leaves_ok hwf 0 leaf hleaf
    have hne : leaf.value (putAll (SysHeap.residue (fun _ => 0) (zb.chan chan).msgSize) ws) ≠
        leaf.value (putAll (SysHeap.residue (fun _ => 1) (zb.chan chan).msgSize) ws) := by
      apply Leaf.value_ne hok.size_pos
      · intro htype
        rw [htype] at hok
        have hone : leaf.size = 1 := hok
        rw [hone]
        rfl
      · rw [hslice, slice_residue (hrange hleaf)]
      · rw [hslice, slice_residue (hrange hleaf)]
    exact hne (hsame _ _ _ _ _ _ (hands_of_indexable hv hdescr hwf hfresh hpos hws fun _ => 0)
      (hands_of_indexable hv hdescr hwf hfresh hpos hws fun _ => 1) leaf hleaf)
  · intro hsupplied g g' fails fails' m m' hm hm' leaf hleaf
    obtain ⟨hfresh, hpos, ws, hws, rfl⟩ := hm.message hv hdescr
    obtain ⟨-, -, ws', hws', rfl⟩ := hm'.message hv hdescr
    obtain rfl := Except.ok.inj (hws.symm.trans hws')
    have hindex := (tableWrites_ok_iff tgt descr.fields _ 0).mp ⟨ws, hws⟩
    have hmem : leaf.span ∈ ws.map Write.span := by
      rw [tableWrites_spans hwf hws]
      exact List.mem_map_of_mem
        (List.mem_filter.mpr ⟨hleaf, hsupplied hfresh hpos hindex leaf hleaf⟩)
    obtain ⟨w, hw, hspan⟩ := List.mem_map.mp hmem
    obtain ⟨hstart, hsize⟩ := Span.mk.inj hspan
    have hslice (g : Nat → UInt8) : slice
        (putAll (SysHeap.residue g (zb.chan chan).msgSize) ws) leaf.start leaf.size.toNat =
          w.cells := by
      rw [← hstart, ← hsize]
      exact slice_putAll_of_mem (hwithin g hws) (tableWrites_apart hwf hws) hw
    exact Leaf.value_congr ((hslice g).trans (hslice g').symm)

/-- A state of the sample's bus with nothing handed over so far. -/
def recordingState : State (Bus chanSensorConfig × List (Nat × Bytes)) :=
  State.idle 0 (Bus.initial chanSensorConfig, [])

/-- The complete configuration is published with the same fields whatever the heap held. The
presence flag and the padding are not fields, and may differ. -/
theorem publishesSame_iff_sensorCfg :
    PublishesSame Target.sample (Zbus.ofBus chanSensorConfig [0]) 0 msgSensorConfigFields
      (.table sensorCfg none) (.integer 200) recordingState := by
  have hdescr : ((Zbus.ofBus chanSensorConfig [0]).chan 0).userData =
    some ⟨msgSensorConfigFields, 20⟩ := rfl
  exact (publishesSame_iff rfl hdescr (by decide)).mpr (fun _ _ _ => by decide)

/-- `{ sensor_id = 42 }`, without the offset. -/
def partialCfg : Entries := [(ascii "sensor_id", .integer 42)]

/-- In a block that held zeros the offset is published as zeros, in one that held ones
as ones. -/
theorem pub_shows_residue :
    Hands Target.sample (Zbus.ofBus chanSensorConfig [0]) 0 (.table partialCfg none)
      (.integer 200) recordingState (fun _ => 0) (fun _ => false)
      ([42, 0, 0, 0] ++ List.replicate 16 0) ∧
    Hands Target.sample (Zbus.ofBus chanSensorConfig [0]) 0 (.table partialCfg none)
      (.integer 200) recordingState (fun _ => 1) (fun _ => false)
      ([42, 0, 0, 0] ++ List.replicate 16 1) ∧
    ¬ PublishesSame Target.sample (Zbus.ofBus chanSensorConfig [0]) 0 msgSensorConfigFields
      (.table partialCfg none) (.integer 200) recordingState := by
  have hdescr : ((Zbus.ofBus chanSensorConfig [0]).chan 0).userData =
    some ⟨msgSensorConfigFields, 20⟩ := rfl
  have hfresh : recordingState.heap.freshContents 20 ≠ none := by decide
  have hhands (g : Nat → UInt8) : Hands Target.sample (Zbus.ofBus chanSensorConfig [0]) 0
      (.table partialCfg none) (.integer 200) recordingState g (fun _ => false)
      (putAll (SysHeap.residue g 20) [⟨0, [42, 0, 0, 0]⟩]) :=
    hands_of_indexable rfl hdescr (by decide) hfresh (by decide) rfl g
  have hzero := hhands fun _ => 0
  have hone := hhands fun _ => 1
  refine ⟨hzero, hone, fun hsame => ?_⟩
  have hleaf : Leaf.mk [ascii "offset", ascii "x"] .int 8 4 ∈ leaves msgSensorConfigFields 0 := by
    decide
  have hvalue := hsame _ _ _ _ _ _ hzero hone _ hleaf
  exact absurd hvalue (by decide)

end LuaZephyr
