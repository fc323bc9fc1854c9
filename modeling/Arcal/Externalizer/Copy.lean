import Arcal.Accessor.Copy
import Arcal.Json.Codec

/-! What either externalizer writes depends only on what an object shows, so a copy is
written like its source. -/

namespace Arcal

open Schema Store

theorem foldl_forall₂ {α β γ : Type} {related : α → γ → Prop} {step : β → α → β}
    {step' : β → γ → β} (same : ∀ a b, related a b → ∀ s, step s a = step' s b) {xs : List α}
    {ys : List γ} (pairs : List.Forall₂ related xs ys) (s : β) :
    xs.foldl step s = ys.foldl step' s := by
  induction pairs generalizing s with
  | nil => rfl
  | cons head _ ih => rw [List.foldl_cons, List.foldl_cons, same _ _ head, ih]

namespace Cdr

mutual
theorem Elem.serialize_agrees : (e : Elem) → {left right : e.Impl} → e.Agrees left right →
    ∀ buf, Elem.serialize e left buf = Elem.serialize e right buf
  | .prim _, _, _, same, buf => by
      simp only [Elem.Agrees] at same
      rw [same]
  | .enum _ _, _, _, same, buf => by
      simp only [Elem.Agrees] at same
      rw [same]
  | .cls _ body, _, _, same, buf => by
      simp only [Elem.Agrees] at same
      simp only [Elem.serialize]
      exact Members.serialize_agrees body same buf

theorem Members.serialize_agrees : (ms : Members) → {left right : ms.Impl} →
    ms.Agrees left right → ∀ buf, Members.serialize ms left buf = Members.serialize ms right buf
  | .nil, _, _, _, _ => by simp only [Members.serialize]
  | .base _ body rest, _, _, same, buf => by
      simp only [Members.Agrees] at same
      simp only [Members.serialize]
      rw [Members.serialize_agrees body same.1, Members.serialize_agrees rest same.2]
  | .choice variants rest, _, _, same, buf => by
      simp only [Members.Agrees] at same
      obtain ⟨ordinal, store, others⟩ := same
      simp only [Members.serialize]
      rw [ordinal, Variants.serialize_agrees variants _ 1 store,
        Members.serialize_agrees rest others]
  | .required _ elem rest, _, _, same, buf => by
      simp only [Members.Agrees] at same
      simp only [Members.serialize]
      rw [Elem.serialize_agrees elem same.1, Members.serialize_agrees rest same.2]
  | .optional _ elem rest, _, right, same, buf => by
      simp only [Members.Agrees] at same
      obtain ⟨presence, value, others⟩ := same
      simp only [Members.serialize]
      rw [presence, Members.serialize_agrees rest others]
      cases present : right.1.has with
      | true =>
          have written := Elem.serialize_agrees elem (value present)
          simp only [if_true, written]
      | false => simp only [Bool.false_eq_true, if_false]
  | .list _ _ elem rest, _, _, same, buf => by
      simp only [Members.Agrees] at same
      have each : ∀ a b, elem.Agrees a b → ∀ buf, Elem.serialize elem a buf =
          Elem.serialize elem b buf := fun _ _ shown => Elem.serialize_agrees elem shown
      have items := foldl_forall₂ each same.1
      simp only [Members.serialize]
      rw [same.1.length_eq, items, Members.serialize_agrees rest same.2]

theorem Variants.serialize_agrees : (vs : Variants) → (ordinal index : Nat) →
    {left right : vs.Impl} → vs.Agrees ordinal index left right →
    ∀ buf, Variants.serialize vs ordinal index left buf =
      Variants.serialize vs ordinal index right buf
  | .nil, _, _, _, _, _, _ => by simp only [Variants.serialize]
  | .cons _ elem rest, ordinal, index, _, _, same, buf => by
      simp only [Variants.Agrees] at same
      simp only [Variants.serialize]
      rw [Variants.serialize_agrees rest ordinal (index + 1) same.2]
      by_cases chosen : ordinal = index
      · rw [if_pos chosen, if_pos chosen, Elem.serialize_agrees elem (same.1 chosen)]
      · rw [if_neg chosen, if_neg chosen]
end

end Cdr

namespace Json

variable (fp : Floating)

theorem emitItems_agrees {α γ : Type} {related : α → γ → Prop} {emit : α → Bytes → Bytes}
    {emit' : γ → Bytes → Bytes} (same : ∀ a b, related a b → ∀ out, emit a out = emit' b out)
    {xs : List α} {ys : List γ} (pairs : List.Forall₂ related xs ys) (out : Bytes) :
    emitItems emit xs out = emitItems emit' ys out := by
  unfold emitItems
  rw [foldl_forall₂ (fun a b related state => by rw [same a b related]) pairs]

mutual
theorem Elem.serialize_agrees : (e : Elem) → {left right : e.Impl} → e.Agrees left right →
    ∀ out, Elem.serialize fp e left out = Elem.serialize fp e right out
  | .prim _, _, _, same, out => by
      simp only [Elem.Agrees] at same
      rw [same]
  | .enum _ _, _, _, same, out => by
      simp only [Elem.Agrees] at same
      rw [same]
  | .cls _ body, _, _, same, out => by
      simp only [Elem.Agrees] at same
      simp only [Elem.serialize]
      rw [Members.serializeFields_agrees body same]

theorem Members.serializeFields_agrees : (ms : Members) → {left right : ms.Impl} →
    ms.Agrees left right →
    ∀ state, Members.serializeFields fp ms left state = Members.serializeFields fp ms right state
  | .nil, _, _, _, _ => by simp only [Members.serializeFields]
  | .base _ body rest, _, _, same, state => by
      simp only [Members.Agrees] at same
      simp only [Members.serializeFields]
      rw [Members.serializeFields_agrees body same.1, Members.serializeFields_agrees rest same.2]
  | .choice variants rest, _, _, same, state => by
      simp only [Members.Agrees] at same
      obtain ⟨ordinal, store, others⟩ := same
      simp only [Members.serializeFields]
      rw [ordinal, Variants.serialize_agrees variants _ 1 store,
        Members.serializeFields_agrees rest others]
  | .required name elem rest, _, _, same, state => by
      simp only [Members.Agrees] at same
      simp only [Members.serializeFields]
      rw [Elem.serialize_agrees elem same.1, Members.serializeFields_agrees rest same.2]
  | .optional name elem rest, _, right, same, state => by
      simp only [Members.Agrees] at same
      obtain ⟨presence, value, others⟩ := same
      simp only [Members.serializeFields]
      rw [presence, Members.serializeFields_agrees rest others]
      cases present : right.1.has with
      | true =>
          have written := Elem.serialize_agrees elem (value present)
          simp only [if_true, written]
      | false => simp only [Bool.false_eq_true, if_false]
  | .list name _ elem rest, _, _, same, state => by
      simp only [Members.Agrees] at same
      have each : ∀ a b, elem.Agrees a b → ∀ out, Elem.serialize fp elem a out =
          Elem.serialize fp elem b out := fun _ _ shown => Elem.serialize_agrees elem shown
      have items := emitItems_agrees each same.1
      simp only [Members.serializeFields]
      rw [items, Members.serializeFields_agrees rest same.2]

theorem Variants.serialize_agrees : (vs : Variants) → (ordinal index : Nat) →
    {left right : vs.Impl} → vs.Agrees ordinal index left right →
    ∀ state, Variants.serialize fp vs ordinal index left state =
      Variants.serialize fp vs ordinal index right state
  | .nil, _, _, _, _, _, _ => by simp only [Variants.serialize]
  | .cons name elem rest, ordinal, index, _, _, same, state => by
      simp only [Variants.Agrees] at same
      simp only [Variants.serialize]
      rw [Variants.serialize_agrees rest ordinal (index + 1) same.2]
      by_cases chosen : ordinal = index
      · rw [if_pos chosen, if_pos chosen, Elem.serialize_agrees elem (same.1 chosen)]
      · rw [if_neg chosen, if_neg chosen]
end

end Json

/-- Among any objects of a generated class: `dst.copy(src)` returns and changes `dst` only,
and `dst` is then written like `src`, as CDR and as JSON. -/
theorem copy_written_alike {schema : SchemaModel} (wf : WellFormed schema) (typeName : String)
    {m : TypeModel} (found : schema.find typeName = some m)
    (classy : m.isSimpleRestriction = false) :
    ∃ e, layout schema typeName = some e ∧
      ∀ (init : (e : Elem) → e.Impl) {ι : Type} [DecidableEq ι] (objects : ι → e.Impl)
        (dst src : ι), dst ≠ src →
        ∃ after, e.copyInto init (.object dst) (fun objects => objects src) objects =
            .ok () after ∧
          (∀ other, other ≠ dst → after other = objects other) ∧
          (∀ buf, Cdr.Elem.serialize e (after dst) buf = Cdr.Elem.serialize e (objects src) buf) ∧
          ∀ fp out,
            Json.Elem.serialize fp e (after dst) out = Json.Elem.serialize fp e (objects src) out := by
  obtain ⟨e, laidOut⟩ := exists_layout wf found classy
  refine ⟨e, laidOut, ?_⟩
  intro init ι _ objects dst src distinct
  obtain ⟨v, run, shown⟩ := e.copyInto_writes init (Apart.object distinct) objects
  have held : (Ref.object dst).put objects v dst = v :=
    (Ref.object dst).get_put objects v
  refine ⟨(Ref.object dst).put objects v, run, ?_, ?_, ?_⟩
  · intro other different
    exact Function.update_of_ne different v objects
  · intro buf
    rw [held]
    exact Cdr.Elem.serialize_agrees e shown buf
  · intro fp out
    rw [held]
    exact Json.Elem.serialize_agrees fp e shown out

def twoHeaders (i : Bool) : headerLayout.Impl :=
  if i then labelledHeader (utf8 "old") else unlabelledHeader

theorem copy_written_alike_header :
    ∃ after, headerLayout.copyInto Elem.fresh (.object true) (fun objects => objects false)
        twoHeaders = .ok () after ∧
      after false = unlabelledHeader ∧
      (∀ buf, Cdr.Elem.serialize headerLayout (after true) buf =
        Cdr.Elem.serialize headerLayout unlabelledHeader buf) ∧
      ∀ fp out, Json.Elem.serialize fp headerLayout (after true) out =
        Json.Elem.serialize fp headerLayout unlabelledHeader out := by
  obtain ⟨e, laidOut, copies⟩ := copy_written_alike sampleSchema_wellFormed "HeaderType" rfl rfl
  have same : headerLayout = e := Option.some.inj (layout_header.symm.trans laidOut)
  subst same
  obtain ⟨after, run, others, cdr, json⟩ := copies Elem.fresh twoHeaders true false (by decide)
  exact ⟨after, run, others false (by decide), cdr, json⟩

end Arcal
