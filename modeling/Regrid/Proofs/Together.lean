/-
  Regrid.Proofs.Together — actions that workers of a crew take together.

  `Goes P x Q`: from where `P` holds the actions `x`, one for each worker, return together
  with `Q` or fail together with the same fault, if the promise to the crew is kept at their
  end. Whatever comes of them, they only add to what was agreed on and seen (`Onward`), so
  that a promise kept at the end of a sequence was kept at the end of its first part; this is
  what `Goes.bind` rests on. Below it there is one rule for each step on a bench.
-/

import Mathlib.Tactic.Choose
import Regrid.Proofs.Crew

namespace Regrid

variable {ι R W α β : Type}

/-! ## Steps together -/

namespace Crew

variable {crew : Crew ι R W}

/-- A worker that fits still does, and nothing that was agreed on or seen is dropped. -/
def Onward (crew : Crew ι R W) (i : ι) (s t : Bench R W) : Prop :=
  Fit crew.mesh s → Fit crew.mesh t ∧ s.agreed <+: t.agreed ∧ crew.past i s.world <+: crew.past i t.world

instance (i : ι) : Lasting (crew.Onward i) where
  refl _ fit := ⟨fit, List.prefix_rfl, List.prefix_rfl⟩
  trans h h' fit := by
    obtain ⟨fit_t, agreed, past⟩ := h fit
    obtain ⟨fit_u, agreed', past'⟩ := h' fit_t
    exact ⟨fit_u, agreed.trans agreed', past.trans past'⟩

theorem Concord.of_onward {s t : ι → Bench R W} (h : crew.Concord t) (fit : ∀ i, Fit crew.mesh (s i))
    (ht : ∀ i, crew.Onward i (s i) (t i)) : crew.Concord s :=
  ⟨h.reductions.of_isPrefix fun i => (ht i (fit i)).2.1, h.views.of_isPrefix fun i => (ht i (fit i)).2.2⟩

/-- All return with `Q`, or all fail with the same fault. -/
def Together (crew : Crew ι R W) (x : ι → Act R W α) (b : ι → Bench R W)
    (Q : (ι → α) → (ι → Bench R W) → Prop) : Prop :=
  (∃ a t, (∀ i, x i (b i) = .ok (a i) (t i)) ∧ Q a t) ∨
    ∃ f t, (∀ i, x i (b i) = .error f (t i)) ∧ crew.Abreast t

/-- From where `P` holds the actions end together if the promise is kept; in any case they go onward. -/
structure Goes (crew : Crew ι R W) (P : (ι → Bench R W) → Prop) (x : ι → Act R W α)
    (Q : (ι → α) → (ι → Bench R W) → Prop) : Prop where
  onward : ∀ i, Keeps (crew.Onward i) (x i)
  together : ∀ b, (∀ i, Fit crew.mesh (b i)) → P b → crew.Concord (fun i => stateAfter (x i) (b i)) →
    crew.Together x b Q

/-- All have the same result. -/
def Common (M : α → (ι → Bench R W) → Prop) (a : ι → α) (t : ι → Bench R W) : Prop :=
  ∃ v, (∀ i, a i = v) ∧ M v t

/-- All decide the same and are abreast. -/
def Decided (crew : Crew ι R W) : (ι → α) → (ι → Bench R W) → Prop := Common fun _ => crew.Abreast

namespace Goes

variable {P P' : (ι → Bench R W) → Prop} {x : ι → Act R W α} {Q Q' : (ι → α) → (ι → Bench R W) → Prop}

theorem mono (h : crew.Goes P x Q) (hP : ∀ b, P' b → P b) (hQ : ∀ a t, Q a t → Q' a t) :
    crew.Goes P' x Q' := by
  refine ⟨h.onward, fun b fit hb hc => ?_⟩
  rcases h.together b fit (hP b hb) hc with ⟨a, t, hx, hq⟩ | failed
  · exact .inl ⟨a, t, hx, hQ a t hq⟩
  · exact .inr failed

theorem drop {p : Prop} (h : crew.Goes P x Q) : crew.Goes (fun b => p ∧ P b) x Q :=
  h.mono (fun _ hb => hb.2) fun _ _ hq => hq

theorem pure {a : ι → α} (h : ∀ b, P b → Q a b) : crew.Goes P (fun i => Pure.pure (a i)) Q :=
  ⟨fun i => .pure (a i), fun b _ hb _ => .inl ⟨a, b, fun _ => rfl, h b hb⟩⟩

theorem pure_common {M : α → (ι → Bench R W) → Prop} {v : α} (h : ∀ b, P b → M v b) :
    crew.Goes P (fun _ => Pure.pure v) (Common M) := .pure fun b hb => ⟨v, fun _ => rfl, h b hb⟩

theorem throw (f : Fault) (h : ∀ b, P b → crew.Abreast b) : crew.Goes P (fun _ => MonadExcept.throw f) Q :=
  ⟨fun _ => .throw f, fun b _ hb _ => .inr ⟨f, b, fun _ => rfl, h b hb⟩⟩

theorem decides {v : α} (h : ∀ b, P b → crew.Abreast b) : crew.Goes P (fun _ => Pure.pure v) crew.Decided :=
  .pure_common h

theorem bind {M : (ι → α) → (ι → Bench R W) → Prop} {y : ι → α → Act R W β}
    {Q : (ι → β) → (ι → Bench R W) → Prop} (hx : crew.Goes P x M)
    (hy : ∀ a, crew.Goes (M a) (fun i => y i (a i)) Q) :
    crew.Goes P (fun i => x i >>= y i) Q := by
  have later (i : ι) (a : α) : Keeps (crew.Onward i) (y i a) := (hy fun _ => a).onward i
  refine ⟨fun i => (hx.onward i).bind (later i), fun b fit hb hc => ?_⟩
  have fit_x (i : ι) : Fit crew.mesh (stateAfter (x i) (b i)) := ((hx.onward i).after (b i) (fit i)).1
  have concord_x := hc.of_onward fit_x fun i => Keeps.after_bind (later i) (b i)
  rcases hx.together b fit hb concord_x with ⟨a, t, ht, hM⟩ | ⟨f, t, ht, abreast⟩
  · have left (i : ι) : stateAfter (x i) (b i) = t i := by simp only [stateAfter, ht]
    have run (i : ι) : (x i >>= y i) (b i) = y i (a i) (t i) := bind_of_ok (ht i)
    simp only [left] at fit_x
    have concord_y : crew.Concord fun i => stateAfter (y i (a i)) (t i) := by
      simpa only [stateAfter, run] using hc
    simpa only [Together, run] using (hy a).together t fit_x hM concord_y
  · exact .inr ⟨f, t, fun i => bind_of_error (ht i), abreast⟩

theorem of_common {M : α → (ι → Bench R W) → Prop} {y : ι → α → Act R W β}
    {Q : (ι → β) → (ι → Bench R W) → Prop} (hy : ∀ v, crew.Goes (M v) (fun i => y i v) Q) (a : ι → α) :
    crew.Goes (Common M a) (fun i => y i (a i)) Q := by
  refine ⟨fun i => (hy (a i)).onward i, fun b fit ⟨v, hv, hM⟩ hc => ?_⟩
  obtain rfl : a = fun _ => v := funext hv
  exact (hy v).together b fit hM hc

/-- After a result that all have alike, what follows may take it as one. -/
theorem bind_common {M : α → (ι → Bench R W) → Prop} {y : ι → α → Act R W β}
    {Q : (ι → β) → (ι → Bench R W) → Prop} (hx : crew.Goes P x (Common M))
    (hy : ∀ v, crew.Goes (M v) (fun i => y i v) Q) : crew.Goes P (fun i => x i >>= y i) Q :=
  hx.bind (of_common hy)

theorem discard (h : crew.Goes P x crew.Decided) :
    crew.Goes P (fun i => Functor.discard (x i)) fun _ t => crew.Abreast t := by
  show crew.Goes P (fun i => (fun _ => PUnit.unit) <$> x i) fun _ t => crew.Abreast t
  simpa only [bind_pure_comp] using h.bind_common (y := fun _ _ => Pure.pure PUnit.unit) fun _ =>
    .pure fun _ ht => ht

/-- Steps that return whatever they find. -/
theorem of_returns {r : ι → Bench R W → α → Bench R W → Prop}
    (h : ∀ i s, ∃ a t, x i s = .ok a t ∧ r i s a t) (onward : ∀ i s a t, r i s a t → crew.Onward i s t)
    (hQ : ∀ b a t, P b → (∀ i, r i (b i) (a i) (t i)) → crew.Concord t → Q a t) : crew.Goes P x Q := by
  refine ⟨fun i s => ?_, fun b _ hb hc => ?_⟩
  · obtain ⟨a, t, hx, hr⟩ := h i s
    exact (ends_of_ok hx).mpr (onward i s a t hr)
  · choose a t hx hr using fun i => h i (b i)
    simp only [stateAfter, hx] at hc
    exact .inl ⟨a, t, hx, hQ b a t hb hr hc⟩

end Goes

/-! ## What steps add -/

/-- The calls, agreements and looks that a step adds; markers and controls stay. -/
structure Adds (past : W → List View) (calls : List (MeshId × Call R)) (got : List (Reduction × Quantity R))
    (looks : List View) (s t : Bench R W) : Prop where
  markers : t.markers = s.markers
  controls : t.controls = s.controls
  entered : t.entered = s.entered ++ calls
  agreed : t.agreed = s.agreed ++ got
  past : past t.world = past s.world ++ looks

theorem adds_record (past : W → List View) (s : Bench R W) (e : Event R) :
    Adds past e.entered?.toList e.agreed?.toList [] s (s.record e) :=
  ⟨rfl, rfl, s.entered_record e, s.agreed_record e, (List.append_nil _).symm⟩

theorem adds_world {past : W → List View} {s : Bench R W} {w : W} {looks : List View}
    (h : past w = past s.world ++ looks) : Adds past [] [] looks s { s with world := w } :=
  ⟨rfl, rfl, (List.append_nil _).symm, (List.append_nil _).symm, h⟩

theorem Adds.trans {past : W → List View} {calls calls' : List (MeshId × Call R)}
    {got got' : List (Reduction × Quantity R)} {looks looks' : List View} {s t u : Bench R W}
    (h : Adds past calls got looks s t) (h' : Adds past calls' got' looks' t u) :
    Adds past (calls ++ calls') (got ++ got') (looks ++ looks') s u where
  markers := h'.markers.trans h.markers
  controls := h'.controls.trans h.controls
  entered := by rw [h'.entered, h.entered, List.append_assoc]
  agreed := by rw [h'.agreed, h.agreed, List.append_assoc]
  past := by rw [h'.past, h.past, List.append_assoc]

section

variable {calls : List (MeshId × Call R)} {got : ι → List (Reduction × Quantity R)} {looks : ι → List View}
  {b t : ι → Bench R W}

theorem Adds.onward {i : ι} {s u : Bench R W} {gain : List (Reduction × Quantity R)} {seen : List View}
    (h : Adds (crew.past i) calls gain seen s u) : crew.Onward i s u :=
  fun fit => ⟨⟨h.markers ▸ fit.markers, h.controls ▸ fit.controls⟩, h.agreed ▸ List.prefix_append _ _,
    h.past ▸ List.prefix_append _ _⟩

/-- Workers that were abreast and add the same still are. -/
theorem Abreast.adds (h : crew.Abreast b) (ht : ∀ i, Adds (crew.past i) calls (got i) (looks i) (b i) (t i))
    (hgot : ∀ i j, got i = got j) (hlooks : ∀ i j, looks i = looks j) : crew.Abreast t where
  controls i j := by rw [(ht i).controls, (ht j).controls, h.controls i j]
  markers i j := by rw [(ht i).markers, (ht j).markers, h.markers i j]
  entered i j := by rw [(ht i).entered, (ht j).entered, h.entered i j]
  agreed i j := by rw [(ht i).agreed, (ht j).agreed, h.agreed i j, hgot i j]
  views i j := by rw [(ht i).past, (ht j).past, h.views i j, hlooks i j]

/-- The promise says that reductions with the same operation came out alike. -/
theorem Concord.same_got (hc : crew.Concord t) (h : crew.Abreast b)
    (ht : ∀ i, Adds (crew.past i) calls (got i) (looks i) (b i) (t i))
    (ops : ∀ i j, (got i).map Prod.fst = (got j).map Prod.fst) : ∀ i j, got i = got j :=
  Consent.next (by simpa only [(ht _).agreed] using hc.reductions) h.agreed ops

theorem Concord.same_looks (hc : crew.Concord t) (h : crew.Abreast b)
    (ht : ∀ i, Adds (crew.past i) calls (got i) (looks i) (b i) (t i))
    (lengths : ∀ i j, (looks i).length = (looks j).length) : ∀ i j, looks i = looks j := by
  have hviews : Consent (fun _ => ()) fun i => crew.past i (b i).world ++ looks i := by
    simpa only [(ht _).past] using hc.views
  refine hviews.next h.views fun i j => ?_
  simp only [List.map_const', lengths i j]

end

/-- Abreast, with `ne i` elements on worker `i`. -/
def With (crew : Crew ι R W) (ne : ι → Int) (b : ι → Bench R W) : Prop :=
  crew.Abreast b ∧ ∀ i, (crew.site i).elements crew.mesh (b i).world = ne i

namespace Goes

variable {P : (ι → Bench R W) → Prop} {x : ι → Act R W α} {Q : (ι → α) → (ι → Bench R W) → Prop}
    {ne : ι → Int}

/-- Whoever is abreast has some elements. -/
theorem of_abreast (h : ∀ ne, crew.Goes (crew.With ne) x Q) : crew.Goes crew.Abreast x Q :=
  ⟨(h fun _ => 0).onward, fun b fit hb hc => (h _).together b fit ⟨hb, fun _ => rfl⟩ hc⟩

/-- A step that reads: it may call, reduce and deliver something that fits the elements. -/
theorem reads (calls : List (MeshId × Call R)) (got : α → List (Reduction × Quantity R))
    (F : Int → α → Prop)
    (h : ∀ i s, ∃ a t, x i s = .ok a t ∧ Adds (crew.past i) calls (got a) [] s t ∧
      (crew.site i).elements crew.mesh t.world = (crew.site i).elements crew.mesh s.world ∧
      F ((crew.site i).elements crew.mesh s.world) a)
    (ops : ∀ a a', (got a).map Prod.fst = (got a').map Prod.fst) :
    crew.Goes (crew.With ne) x fun a t =>
      (∀ i j, got (a i) = got (a j)) ∧ (∀ i, F (ne i) (a i)) ∧ crew.With ne t := by
  refine .of_returns h (fun i s a t ht => ht.1.onward) ?_
  intro b a t ⟨abreast, hne⟩ ht hc
  have adds (i : ι) : Adds (crew.past i) calls (got (a i)) [] (b i) (t i) := (ht i).1
  have same := hc.same_got abreast adds fun i j => ops (a i) (a j)
  refine ⟨same, fun i => ?_, abreast.adds adds same fun _ _ => rfl, fun i => ?_⟩
  · rw [← hne i]; exact (ht i).2.2
  · rw [(ht i).2.1, hne i]

/-- A step that changes the mesh. -/
theorem changes (h : ∀ i s, ∃ a t, x i s = .ok a t ∧ ∃ v, Adds (crew.past i) [] [] [v] s t) :
    crew.Goes (crew.With ne) x fun _ t => crew.Abreast t := by
  refine .of_returns h (fun i s a t ⟨v, ht⟩ => ht.onward) ?_
  intro b a t ⟨abreast, _⟩ ht hc
  choose v adds using ht
  have same := hc.same_looks abreast adds fun _ _ => rfl
  exact abreast.adds adds (fun _ _ => rfl) same

end Goes

variable {P : (ι → Bench R W) → Prop} {ne : ι → Int}

/-! ## Steps on a bench -/

theorem onward_noteFault (i : ι) (s : Bench R W) (f : Fault) : crew.Onward i s (s.noteFault f) := by
  refine s.noteFault_of_record (I := crew.Onward i s) f (Lasting.refl s) fun n => ?_
  exact (adds_record (crew.past i) s (.note n)).onward

theorem Abreast.noteFault {b : ι → Bench R W} (h : crew.Abreast b) (f : Fault) :
    crew.Abreast fun i => (b i).noteFault f := by
  cases hf : f.report? with
  | none => simpa only [Bench.noteFault, hf] using h
  | some r =>
    have adds (i : ι) := adds_record (crew.past i) (b i) (.note (.fault r))
    simpa only [Bench.noteFault, hf] using h.adds adds (fun _ _ => rfl) fun _ _ => rfl

theorem Abreast.setMarker {b : ι → Bench R W} (h : crew.Abreast b) (k : MarkerId) {m : ι → Marker R}
    (hm : ∀ i j, (m i).bare = (m j).bare) : crew.Abreast fun i => (b i).setMarker k (m i) where
  controls := h.controls
  markers i j := by simp only [Bench.setMarker, List.map_set, h.markers i j, hm i j]
  entered := h.entered
  agreed := h.agreed
  views := h.views

theorem setMarker_missing {b : Bench R W} {k : MarkerId} (h : b.markers[k]? = none) (m : Marker R) :
    b.setMarker k m = b := by
  simp only [Bench.setMarker, List.set_eq_of_length_le (List.getElem?_eq_none_iff.mp h)]

/-- A marker of the same mesh and source takes the place of one. -/
theorem onward_setMarker (i : ι) {s : Bench R W} {k : MarkerId} {m' : Marker R}
    (h : ∀ m, s.markers[k]? = some m → m'.mesh = m.mesh ∧ m'.source = m.source) :
    crew.Onward i s (s.setMarker k m') := by
  cases hk : s.markers[k]? with
  | none =>
    rw [setMarker_missing hk]
    exact Lasting.refl s
  | some m =>
    refine fun fit => ⟨⟨fun x hx => ?_, fit.controls⟩, List.prefix_rfl, List.prefix_rfl⟩
    rcases List.mem_or_eq_of_mem_set hx with hmem | rfl
    · exact fit.markers x hmem
    · rw [(h m hk).1, (h m hk).2]
      exact fit.markers m (List.mem_of_getElem? hk)

/-- Workers that are abreast have a marker alike, or none has it. -/
theorem Abreast.marker [Nonempty ι] {b : ι → Bench R W} (h : crew.Abreast b) (k : MarkerId) :
    (∀ i, (b i).markers[k]? = none) ∨
      ∃ m : ι → Marker R, (∀ i, (b i).markers[k]? = some (m i)) ∧ ∀ i j, (m i).bare = (m j).bare := by
  obtain ⟨i⟩ := ‹Nonempty ι›
  have alike (j : ι) : (b j).markers[k]?.map Marker.bare = (b i).markers[k]?.map Marker.bare := by
    simpa only [List.getElem?_map] using congrArg (·[k]?) (h.markers j i)
  cases hk : (b i).markers[k]? with
  | none =>
    refine .inl fun j => ?_
    simpa [hk] using alike j
  | some m =>
    have each (j : ι) : ∃ m', (b j).markers[k]? = some m' ∧ m'.bare = m.bare := by
      have hj := alike j
      rw [hk] at hj
      exact Option.map_eq_some_iff.mp hj
    choose m' hm' hbare using each
    exact .inr ⟨m', hm', fun i j => (hbare i).trans (hbare j).symm⟩

namespace Goes

variable {x : ι → Act R W β} {Q : (ι → β) → (ι → Bench R W) → Prop}

theorem look (g : ι → W → α) :
    crew.Goes P (fun i => Act.look (g i)) fun a b => (∀ i, a i = g i (b i).world) ∧ P b :=
  ⟨fun i s => (Act.ends_look (g i)).mpr (Lasting.refl (r := crew.Onward i) s),
    fun b _ hb _ => .inl ⟨_, b, fun _ => rfl, fun _ => rfl, hb⟩⟩

/-- Looks at what all workers see. -/
theorem look_common [Nonempty ι] {g : ι → W → α} (h : ∀ b, P b → ∀ i j, g i (b i).world = g j (b j).world) :
    crew.Goes P (fun i => Act.look (g i)) (Common fun _ => P) := by
  refine (look g).mono (fun _ hb => hb) fun a t ⟨ha, ht⟩ => ?_
  obtain ⟨i⟩ := ‹Nonempty ι›
  exact ⟨a i, fun j => by rw [ha j, ha i, h t ht j i], ht⟩

theorem record {e : ι → Event R} (call : List (MeshId × Call R)) (hcall : ∀ i, (e i).entered?.toList = call)
    (hgot : ∀ i, (e i).agreed? = none) :
    crew.Goes (crew.With ne) (fun i => Act.record (e i)) fun _ t => crew.With ne t := by
  refine (reads call (fun _ => []) (fun _ _ => True) (fun i s => ?_) fun _ _ => rfl).mono
    (fun _ h => h) fun _ _ h => h.2.2
  have adds := adds_record (crew.past i) s (e i)
  rw [hcall i, hgot i] at adds
  exact ⟨⟨⟩, _, rfl, adds, rfl, trivial⟩

theorem note {n : ι → Note R} (hgot : ∀ i, (Event.note (n i)).agreed? = none) :
    crew.Goes (crew.With ne) (fun i => Act.note (n i)) fun _ t => crew.With ne t :=
  record [] (fun _ => rfl) hgot

theorem record_abreast {e : ι → Event R} (call : List (MeshId × Call R))
    (hcall : ∀ i, (e i).entered?.toList = call) (hgot : ∀ i, (e i).agreed? = none) :
    crew.Goes crew.Abreast (fun i => Act.record (e i)) fun _ t => crew.Abreast t :=
  of_abreast fun _ => (record call hcall hgot).mono (fun _ h => h) fun _ _ h => h.1

theorem note_abreast {n : ι → Note R} (hgot : ∀ i, (Event.note (n i)).agreed? = none) :
    crew.Goes crew.Abreast (fun i => Act.note (n i)) fun _ t => crew.Abreast t :=
  record_abreast [] (fun _ => rfl) hgot

theorem call (mesh : MeshId) (bare : Call R) {c : ι → Call R} (h : ∀ i, (c i).bare = bare) :
    crew.Goes (crew.With ne) (fun i => Act.call mesh (c i)) fun _ t => crew.With ne t :=
  record [(mesh, bare)] (fun i => by simp [Event.entered?, h i]) fun _ => rfl

theorem ask {q : ι → EStateM Fault W α} {valid : Int → α → Prop}
    (h : ∀ i, Delivers (crew.site i) crew.mesh (crew.past i) (q i) valid) :
    crew.Goes (crew.With ne) (fun i => Act.ask (q i)) fun a t =>
      (∀ i, valid (ne i) (a i)) ∧ crew.With ne t := by
  refine (reads [] (fun _ => []) valid (fun i s => ?_) fun _ _ => rfl).mono (fun _ h => h) fun _ _ h => h.2
  obtain ⟨a, w, hq, past, elements, hvalid⟩ := h i s.world
  exact ⟨a, _, Act.ask_of_ok hq, adds_world (by rw [past, List.append_nil]), elements, hvalid⟩

theorem ask_change {q : ι → EStateM Fault W α} (h : ∀ i, Changes (crew.past i) (q i)) :
    crew.Goes (crew.With ne) (fun i => Act.ask (q i)) fun _ t => crew.Abreast t := by
  refine changes fun i s => ?_
  obtain ⟨v, a, w, hq, past⟩ := h i s.world
  exact ⟨a, _, Act.ask_of_ok hq, v, adds_world past⟩

/-- What each worker passes without a step. -/
theorem passes {y : ι → Act R W α} (onward : ∀ i, Keeps (crew.Onward i) (y i))
    (h : ∀ b, P b → ∀ i, ∃ a, y i (b i) = .ok a (b i)) : crew.Goes P y fun _ t => P t := by
  refine ⟨onward, fun b _ hb _ => ?_⟩
  choose a ha using h b hb
  exact .inl ⟨a, b, ha, hb⟩

theorem onward_check (i : ι) (v : Except Fault α) : Keeps (crew.Onward i) (Act.check v : Act R W α) :=
  match v with
  | .ok a => .pure a
  | .error f => fun s => onward_noteFault i s f

/-- A check that all workers pass. -/
theorem check_ok {v : ι → Except Fault α} (h : ∀ b, P b → ∀ i, ∃ a, v i = .ok a) :
    crew.Goes P (fun i => Act.check (v i)) fun a t => (∀ i, v i = .ok (a i)) ∧ P t := by
  refine ⟨fun i => onward_check i (v i), fun b _ hb _ => ?_⟩
  choose a ha using h b hb
  exact .inl ⟨a, b, fun i => Act.check_of_ok (ha i), ha, hb⟩

/-- A check that all workers pass or fail alike. -/
theorem check_same [Nonempty ι] {v : ι → Except Fault α} (hP : ∀ b, P b → crew.Abreast b)
    (h : ∀ b, P b → ∀ i j, v i = v j) : crew.Goes P (fun i => Act.check (v i)) (Common fun _ => P) := by
  refine ⟨fun i => onward_check i (v i), fun b _ hb _ => ?_⟩
  obtain ⟨i⟩ := ‹Nonempty ι›
  cases hv : v i with
  | ok a => exact .inl ⟨_, b, fun j => Act.check_of_ok ((h b hb j i).trans hv), a, fun _ => rfl, hb⟩
  | error f => exact .inr ⟨f, _, fun j => Act.check_of_error ((h b hb j i).trans hv), (hP b hb).noteFault f⟩

theorem check [Nonempty ι] (v : Except Fault α) :
    crew.Goes (crew.With ne) (fun _ => Act.check v) (Common fun _ => crew.With ne) :=
  check_same (fun _ h => h.1) fun _ _ _ _ => rfl

/-- After a look at a marker, whoever looks at nothing but its bare part may take it as one. -/
theorem marker [Nonempty ι] {k : MarkerId} {y : ι → Marker R → Act R W β} (hP : ∀ b, P b → crew.Abreast b)
    (bare : ∀ i m m', m.bare = m'.bare → y i m = y i m')
    (hy : ∀ m e s, m.mesh = crew.mesh → m.source = .threshold e s → crew.Goes P (fun i => y i m) Q) :
    crew.Goes P (fun i => Act.marker k >>= y i) Q := by
  refine ⟨fun i s => ends_stateAfter.mpr fun fit => ?_, fun b fit hb hc => ?_⟩
  · cases hk : s.markers[k]? with
    | none =>
      rw [stateAfter, bind_of_error (Act.marker_missing hk)]
      exact Lasting.refl (r := crew.Onward i) s fit
    | some m =>
      obtain ⟨hmesh, e, settings, hsource⟩ := fit.markers m (List.mem_of_getElem? hk)
      rw [stateAfter, bind_of_ok (Act.marker_apply hk)]
      exact ((hy m e settings hmesh hsource).onward i).after s fit
  · obtain ⟨i⟩ := ‹Nonempty ι›
    rcases (hP b hb).marker k with none | ⟨m, hm, alike⟩
    · exact .inr ⟨.missing, b, fun j => bind_of_error (Act.marker_missing (none j)), hP b hb⟩
    · obtain ⟨hmesh, e, settings, hsource⟩ := (fit i).markers (m i) (List.mem_of_getElem? (hm i))
      have run (j : ι) : (Act.marker k >>= y j) (b j) = y j (m i) (b j) := by
        rw [bind_of_ok (Act.marker_apply (hm j)), bare j (m j) (m i) (alike j i)]
      simp only [stateAfter, run] at hc
      simpa only [Together, run] using (hy (m i) e settings hmesh hsource).together b fit hb hc

/-- Workers that are abreast have the same controls. -/
theorem control [Nonempty ι] {k : ControlId} {y : ι → Control R → Act R W β}
    (hP : ∀ b, P b → crew.Abreast b)
    (hy : ∀ c : Control R, (∀ f label, c.strategy ≠ .foreign f label) → crew.Goes P (fun i => y i c) Q) :
    crew.Goes P (fun i => Act.control k >>= y i) Q := by
  refine ⟨fun i s => ends_stateAfter.mpr fun fit => ?_, fun b fit hb hc => ?_⟩
  · cases hk : s.controls[k]? with
    | none =>
      rw [stateAfter, bind_of_error (Act.control_missing hk)]
      exact Lasting.refl (r := crew.Onward i) s fit
    | some c =>
      rw [stateAfter, bind_of_ok (Act.control_apply hk)]
      exact ((hy c (fit.controls c (List.mem_of_getElem? hk))).onward i).after s fit
  · obtain ⟨i⟩ := ‹Nonempty ι›
    have same (j : ι) : (b j).controls[k]? = (b i).controls[k]? := by rw [(hP b hb).controls j i]
    cases hk : (b i).controls[k]? with
    | none =>
      have run (j : ι) := bind_of_error (y := y j) (Act.control_missing ((same j).trans hk))
      exact .inr ⟨.missing, b, run, hP b hb⟩
    | some c =>
      have run (j : ι) : (Act.control k >>= y j) (b j) = y j c (b j) :=
        bind_of_ok (Act.control_apply ((same j).trans hk))
      simp only [stateAfter, run] at hc
      simpa only [Together, run] using
        (hy c ((fit i).controls c (List.mem_of_getElem? hk))).together b fit hb hc

theorem putControl (k : ControlId) {c : Control R} (hc : ∀ f label, c.strategy ≠ .foreign f label) :
    crew.Goes crew.Abreast (fun _ => Act.putControl k c) fun _ t => crew.Abreast t := by
  refine ⟨fun i s fit => ⟨⟨fit.markers, fun c' hc' => ?_⟩, List.prefix_rfl, List.prefix_rfl⟩,
    fun b _ hb _ => ?_⟩
  · rcases List.mem_or_eq_of_mem_set hc' with hmem | rfl
    · exact fit.controls c' hmem
    · exact hc
  · refine .inl ⟨_, _, fun _ => rfl, fun i j => ?_, hb.markers, hb.entered, hb.agreed, hb.views⟩
    simp only [Bench.setControl_controls, hb.controls i j]

/-- Who looks at the elements knows how many each worker has. -/
theorem look_elements {p : (ι → Int) → Prop} {y : ι → Int → Act R W β}
    {Q : (ι → Int) → (ι → β) → (ι → Bench R W) → Prop}
    (hy : ∀ ne, crew.Goes (fun b => p ne ∧ crew.With ne b) (fun i => y i (ne i)) (Q ne)) :
    crew.Goes (fun b => p ne ∧ crew.With ne b)
      (fun i => Act.look ((crew.site i).elements crew.mesh) >>= y i) (Q ne) := by
  refine (look _).bind fun own => ⟨(hy own).onward, fun b fit ⟨hown, hp, hb⟩ hc => ?_⟩
  obtain rfl : own = ne := funext fun i => (hown i).trans (hb.2 i)
  exact (hy own).together b fit ⟨hp, hb⟩ hc

/-- A marker is changed in what it keeps and counts. -/
theorem changeMarker [Nonempty ι] {p : Prop} {k : MarkerId} {f : ι → Marker R → Marker R}
    (hmesh : ∀ i m, (f i m).mesh = m.mesh) (hsource : ∀ i m, (f i m).source = m.source)
    (hbare : p → ∀ i j m m', m.bare = m'.bare → (f i m).bare = (f j m').bare) :
    crew.Goes (fun b => p ∧ crew.With ne b) (fun i => Act.marker k >>= fun m => Act.putMarker k (f i m))
      fun _ t => p ∧ crew.With ne t := by
  refine ⟨fun i s => ends_bind.mpr ?_, fun b _ ⟨hp, hb⟩ _ => ?_⟩
  · cases hk : s.markers[k]? with
    | none => exact (Act.ends_marker_none hk).mpr (Lasting.refl (r := crew.Onward i) s)
    | some m =>
      refine (Act.ends_marker_some hk).mpr (onward_setMarker i fun m' hm' => ?_)
      obtain rfl := Option.some.inj (hk.symm.trans hm')
      exact ⟨hmesh i m, hsource i m⟩
  · rcases hb.1.marker k with none | ⟨m, hm, alike⟩
    · exact .inr ⟨.missing, b, fun i => bind_of_error (Act.marker_missing (none i)), hb.1⟩
    · refine .inl ⟨fun _ => ⟨⟩, _, fun i => bind_of_ok (Act.marker_apply (hm i)), hp, ?_, hb.2⟩
      exact hb.1.setMarker k fun i j => hbare hp i j _ _ (alike i j)

end Goes

end Crew

end Regrid
