import Arcal.Cdr.RoundTrip

/-! No decoder looks past the bytes it consumes: a run that succeeds on a buffer is the
same run on every longer one. So a cut message is never accepted. -/

namespace Arcal.Cdr

open Schema InPlace

section Helpers

variable {q : Bytes} (suffix : Bytes)

theorem byteAt_append {off : Nat} (inside : off < q.length) :
    byteAt (q ++ suffix) off = byteAt q off := by
  unfold byteAt
  rw [List.getD_append _ _ _ _ inside]

theorem slice_append {off count : Nat} (inside : off + count ≤ q.length) :
    ((q ++ suffix).drop off).take count = (q.drop off).take count := by
  rw [List.drop_append_of_le_length (by omega),
    List.take_append_of_le_length (by rw [List.length_drop]; omega)]

theorem checked_local {α : Type} (needed : Nat) {value value' : Nat → α}
    (same : ∀ off, off + needed ≤ q.length → value' off = value off) :
    Local id q.length
      (do checkBounds q needed
          consume needed value : Reader α)
      (do checkBounds (q ++ suffix) needed
          consume needed value') := by
  intro off a off' run
  rcases bind_eq_ok.mp run with ⟨_, mid, check, rest⟩
  simp only [checkBounds] at check
  split at check
  · cases check
  · next room =>
    injection check with _ stay
    subst stay
    injection rest with value_eq stop
    have fits : off + needed ≤ q.length := by omega
    have again : checkBounds (q ++ suffix) needed off = .ok () off :=
      checkBounds_run (by rw [List.length_append]; omega)
    refine ⟨?_, ?_, ?_⟩
    · rw [bind_ok again, consume, same off fits, value_eq, stop]
    · simp only [id_eq]
      omega
    · intro _
      simp only [id_eq]
      omega

/-- The padding is only skipped when the value behind it is there. -/
theorem aligned_local {α : Type} (alignment needed : Nat) {value value' : Nat → α}
    (same : ∀ off, off + needed ≤ q.length → value' off = value off) :
    Local id q.length
      (do alignOffset alignment
          checkBounds q needed
          consume needed value : Reader α)
      (do alignOffset alignment
          checkBounds (q ++ suffix) needed
          consume needed value') := by
  intro off a off' run
  rcases bind_eq_ok.mp run with ⟨_, start, skip, rest⟩
  rcases checked_local suffix needed same start a off' rest with ⟨again, forward, _⟩
  have bounded : off' ≤ q.length := by
    rcases bind_eq_ok.mp rest with ⟨_, mid, check, done⟩
    simp only [checkBounds] at check
    split at check
    · cases check
    · injection check with _ stay
      subst stay
      injection done with _ stop
      omega
  have later : off ≤ start := by
    injection skip with _ moved
    rw [← moved]
    split <;> omega
  simp only [id_eq] at forward
  refine ⟨bind_eq_ok.mpr ⟨(), start, skip, again⟩, ?_, fun _ => bounded⟩
  simp only [id_eq]
  omega

theorem decodeUint8_local : Local id q.length (decodeUint8 q) (decodeUint8 (q ++ suffix)) :=
  checked_local suffix 1 fun _ inside => byteAt_append suffix (by omega)

theorem decodeBool_local : Local id q.length (decodeBool q) (decodeBool (q ++ suffix)) :=
  checked_local suffix 1 fun off inside => by rw [byteAt_append suffix (by omega)]

theorem decodeUint16_local : Local id q.length (decodeUint16 q) (decodeUint16 (q ++ suffix)) :=
  aligned_local suffix 2 2 fun off inside => by
    rw [byteAt_append suffix (by omega), byteAt_append suffix (by omega)]

theorem decodeUint32_local : Local id q.length (decodeUint32 q) (decodeUint32 (q ++ suffix)) :=
  aligned_local suffix 4 4 fun off inside => by
    rw [byteAt_append suffix (by omega), byteAt_append suffix (by omega),
      byteAt_append suffix (by omega), byteAt_append suffix (by omega)]

theorem decodeUint64_local : Local id q.length (decodeUint64 q) (decodeUint64 (q ++ suffix)) :=
  aligned_local suffix 8 8 fun off inside => by
    congr 1
    apply List.map_congr_left
    intro k small
    rw [List.mem_range] at small
    exact byteAt_append suffix (by omega)

theorem decodeString_local : Local id q.length (decodeString q) (decodeString (q ++ suffix)) :=
  Local.bind (decodeUint32_local suffix) fun len =>
    Local.ite (Local.pure _)
      (checked_local suffix len.toNat fun off inside => slice_append suffix (by omega))

theorem liftExcept_local {α : Type} (result : Except Exc α) :
    Local id q.length (liftExcept result) (liftExcept result) := by
  cases result with
  | ok a => exact Local.pure a
  | error e => exact Local.throw e _

theorem decodeBytes_local : Local id q.length (decodeBytes q) (decodeBytes (q ++ suffix)) :=
  Local.bind (decodeUint32_local suffix) fun len =>
    checked_local suffix len.toNat fun _ inside => slice_append suffix inside

theorem decode_local (t : CxxType) : Local id q.length (decode q t) (decode (q ++ suffix) t) := by
  cases t with
  | bool => exact decodeBool_local suffix
  | int8 => exact Local.bind (decodeUint8_local suffix) fun v => Local.pure v.toInt8
  | uint8 => exact decodeUint8_local suffix
  | int16 => exact Local.bind (decodeUint16_local suffix) fun v => Local.pure v.toInt16
  | uint16 => exact decodeUint16_local suffix
  | int32 => exact Local.bind (decodeUint32_local suffix) fun v => Local.pure v.toInt32
  | uint32 => exact decodeUint32_local suffix
  | int64 => exact Local.bind (decodeUint64_local suffix) fun v => Local.pure v.toInt64
  | uint64 => exact decodeUint64_local suffix
  | float => exact decodeUint32_local suffix
  | double => exact decodeUint64_local suffix
  | string => exact decodeString_local suffix
  | bytes => exact decodeBytes_local suffix
  | uuid => exact Local.bind (decodeString_local suffix) fun text => liftExcept_local _

end Helpers

section Slots

variable {σ : Type} {bound : Nat} {inner inner' : Decode Exc σ Unit}

theorem chooseAnd_local (generated : Bool) (ordinal : UInt32)
    (filled : Local Cursor.off bound inner inner') :
    Local Cursor.off bound (chooseAnd generated ordinal inner)
      (chooseAnd generated ordinal inner') :=
  Local.markAnd _ (Local.onPart filled)

theorem enableAnd_local (generated : Bool) (filled : Local Cursor.off bound inner inner') :
    Local Cursor.off bound (enableAnd generated inner) (enableAnd generated inner') :=
  Local.markAnd _ (Local.onPart filled)

theorem pushItem_local {maxOccurs : Option Nat} (fresh : σ) (copy : σ → σ)
    (filled : Local Cursor.off bound inner inner') :
    Local (Cursor.off (σ := AccessorList maxOccurs σ)) bound (pushItem fresh copy inner)
      (pushItem fresh copy inner') :=
  Local.bind (Local.onNew filled) fun _ => Local.modifyOrThrow _

variable {q : Bytes} (suffix : Bytes)

theorem decodeList_local {maxOccurs : Option Nat} (fresh : σ) (copy : σ → σ)
    (filled : Local Cursor.off q.length inner inner') :
    Local (Cursor.off (σ := AccessorList maxOccurs σ)) q.length (decodeList q fresh copy inner)
      (decodeList (q ++ suffix) fresh copy inner') :=
  Local.bind (Local.position (decodeUint32_local suffix)) fun count =>
    Local.bind (Local.assign _) fun _ =>
      Local.times (pushItem_local fresh copy filled) count.toNat

theorem decodeChoice_local {selected : Nat → Option Bool} {inner inner' : Nat → Decode Exc σ Unit}
    (filled : ∀ ordinal, Local Cursor.off q.length (inner ordinal) (inner' ordinal)) :
    Local Cursor.off q.length (decodeChoice q selected inner)
      (decodeChoice (q ++ suffix) selected inner') := by
  refine Local.bind (Local.position (decodeUint32_local suffix)) fun ordinal => ?_
  cases selected ordinal.toNat with
  | none => exact Local.pure ()
  | some generated => exact chooseAnd_local generated ordinal (filled ordinal.toNat)

theorem decodeOptional_local (generated : Bool) (filled : Local Cursor.off q.length inner inner') :
    Local Cursor.off q.length (decodeOptional q generated inner)
      (decodeOptional (q ++ suffix) generated inner') :=
  Local.bind (Local.position (decodeBool_local suffix)) fun _ =>
    Local.ite (enableAnd_local generated filled) (Local.pure ())

end Slots

mutual
theorem Elem.deserializeAt_local (q suffix : Bytes) : (e : Elem) →
    Local Cursor.off q.length (Elem.deserializeAt q e) (Elem.deserializeAt (q ++ suffix) e)
  | .prim t => by
      simp only [Elem.deserializeAt]
      exact Local.bind (Local.position (decode_local suffix t)) fun v => Local.assign v
  | .enum _ _ => by
      simp only [Elem.deserializeAt]
      exact Local.bind (Local.position (decodeUint32_local suffix)) fun v => Local.assign v
  | .cls _ body => by
      simp only [Elem.deserializeAt]
      exact Members.deserializeAt_local q suffix body

theorem Members.deserializeAt_local (q suffix : Bytes) : (ms : Members) →
    Local Cursor.off q.length (Members.deserializeAt q ms) (Members.deserializeAt (q ++ suffix) ms)
  | .nil => by
      simp only [Members.deserializeAt]
      exact Local.pure ()
  | .base _ body rest => by
      simp only [Members.deserializeAt]
      exact Local.bind (Local.onPart (Members.deserializeAt_local q suffix body)) fun _ =>
        Local.onPart (Members.deserializeAt_local q suffix rest)
  | .choice variants rest => by
      simp only [Members.deserializeAt]
      exact Local.bind (Local.onPart (decodeChoice_local suffix fun ordinal =>
          Variants.deserializeAt_local q suffix variants ordinal 1)) fun _ =>
        Local.onPart (Members.deserializeAt_local q suffix rest)
  | .required _ elem rest => by
      simp only [Members.deserializeAt]
      exact Local.bind (Local.onPart (Elem.deserializeAt_local q suffix elem)) fun _ =>
        Local.onPart (Members.deserializeAt_local q suffix rest)
  | .optional _ elem rest => by
      simp only [Members.deserializeAt]
      exact Local.bind (Local.onPart (decodeOptional_local suffix _
          (Elem.deserializeAt_local q suffix elem))) fun _ =>
        Local.onPart (Members.deserializeAt_local q suffix rest)
  | .list _ _ elem rest => by
      simp only [Members.deserializeAt]
      exact Local.bind (Local.onPart (decodeList_local suffix _ _
          (Elem.deserializeAt_local q suffix elem))) fun _ =>
        Local.onPart (Members.deserializeAt_local q suffix rest)

theorem Variants.deserializeAt_local (q suffix : Bytes) : (vs : Variants) → (ordinal index : Nat) →
    Local Cursor.off q.length (Variants.deserializeAt q vs ordinal index)
      (Variants.deserializeAt (q ++ suffix) vs ordinal index)
  | .nil, _, _ => by
      simp only [Variants.deserializeAt]
      exact Local.pure ()
  | .cons _ elem rest, ordinal, index => by
      simp only [Variants.deserializeAt]
      exact Local.ite (Local.onPart (Elem.deserializeAt_local q suffix elem))
        (Local.onPart (Variants.deserializeAt_local q suffix rest ordinal (index + 1)))
end

/-- A cut encoding is refused: accepting it would mean stopping inside the full one. -/
theorem Elem.deserialize_truncated (e : Elem) (v d : e.Impl) (q : Bytes)
    (limits : Elem.InLimits e v) (cut : q <+: Elem.serialize e v [])
    (proper : q ≠ Elem.serialize e v []) :
    ∃ error, (Elem.deserialize q e d).1 = .error error := by
  unfold Elem.deserialize
  cases run : Elem.deserializeAt q e ⟨0, d⟩ with
  | error error stop => exact ⟨error, rfl⟩
  | ok u stop =>
      exfalso
      rcases cut with ⟨suffix, whole⟩
      rcases Elem.deserializeAt_local q suffix e _ _ _ run with ⟨again, _, inside⟩
      have stopInside := inside (Nat.zero_le _)
      have full := Elem.deserializeAt_serialize e v d [] _ limits (List.prefix_refl _)
      rw [← whole] at full
      rw [List.length_nil, again] at full
      injection full with _ stopEq
      rw [stopEq, List.length_append] at stopInside
      have empty : suffix = [] := List.eq_nil_of_length_eq_zero (by simpa using stopInside)
      rw [empty, List.append_nil] at whole
      exact proper whole

/-- No proper prefix of a valid encoding is decoded, for any class of a well-formed schema. -/
theorem deserialize_refuses_truncated {schema : SchemaModel} (wf : WellFormed schema)
    (typeName : String) {m : TypeModel} (found : schema.find typeName = some m)
    (classy : m.isSimpleRestriction = false) :
    ∃ e, layout schema typeName = some e ∧
      ∀ (v d : e.Impl) (q : Bytes), Elem.InLimits e v → q <+: Elem.serialize e v [] →
        q ≠ Elem.serialize e v [] → ∃ error, (Elem.deserialize q e d).1 = .error error := by
  rcases exists_layout wf found classy with ⟨e, laidOut⟩
  exact ⟨e, laidOut, Elem.deserialize_truncated e⟩

theorem deserialize_refuses_truncated_track :
    ∃ error, (Elem.deserialize ((Elem.serialize trackLayout sampleTrack []).take 3) trackLayout
      trackLayout.fresh).1 = .error error := by
  obtain ⟨e, laidOut, refused⟩ := deserialize_refuses_truncated sampleSchema_wellFormed
    "TrackMDT" rfl rfl
  have same : trackLayout = e := Option.some.inj (layout_sampleSchema.symm.trans laidOut)
  subst same
  refine refused sampleTrack _ _ sampleTrack_inLimits (List.take_prefix _ _) ?_
  intro whole
  have missing : ((Elem.serialize trackLayout sampleTrack []).take 3)[3]? = none := by simp
  rw [whole] at missing
  exact absurd missing (by decide)

end Arcal.Cdr
