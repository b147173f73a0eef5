import CodeQuality.Proofs.Wire.Snapshots

/-!
# Forms without loss

A form writes the values of a type in JSON and reads them. What such a value consists of in the end are
texts, choices and truth values, which every form keeps, and its leaves: numbers, counts and instants.

`Form.Lossless` says that a form loses nothing of a value with leaves that can be written, and that
reading gives no others. It holds of a form that reads back its own values (`Lossless.of_reread`), since
a layout of blanks changes nothing of the value that a text writes.
-/

namespace CodeQuality

/-! ## Leaves -/

/-- A number, a count with the bound of its type, or an instant. -/
inductive Leaf where
  | number (x : Float)
  | count (bound n : Nat)
  | instant (i : Instant)

namespace Leaf

/-- Numbers are finite, counts fit their type, and leap seconds end a minute. -/
def Proper : Leaf → Prop
  | number x => Scalar.isFinite x = true
  | count bound n => n < bound
  | instant i => i.nano < 1000000000 ∨ i.second % 60 = 59 ∧ i.nano < 2000000000

/-- Instants are of the years `0` to `9999`. -/
def Dated : Leaf → Prop
  | instant i => 0 ≤ (Time.Date.ofDays (i.second / 86400)).year ∧
      (Time.Date.ofDays (i.second / 86400)).year ≤ 9999
  | _ => True

/-- The text of a finite number is read as the number. -/
def Kept : Leaf → Prop
  | number x => Scalar.isFinite x = true → ReadsBack x
  | _ => True

/-- A leaf that can be written. -/
structure Exact (l : Leaf) : Prop where
  proper : l.Proper
  dated : l.Dated
  kept : l.Kept

instance (l : Leaf) : Decidable l.Proper :=
  match l with
  | number x => inferInstanceAs (Decidable (Scalar.isFinite x = true))
  | count bound n => inferInstanceAs (Decidable (n < bound))
  | instant _ => inferInstanceAs (Decidable (_ ∨ _))

instance (l : Leaf) : Decidable l.Dated :=
  match l with
  | number _ | count _ _ => .isTrue trivial
  | instant _ => inferInstanceAs (Decidable (_ ∧ _))

instance (l : Leaf) : Decidable l.Kept :=
  match l with
  | number x => inferInstanceAs (Decidable (Scalar.isFinite x = true → ReadsBack x))
  | count _ _ | instant _ => .isTrue trivial

theorem exact_iff (l : Leaf) : l.Exact ↔ l.Proper ∧ l.Dated ∧ l.Kept :=
  ⟨fun ⟨hproper, hdated, hkept⟩ => ⟨hproper, hdated, hkept⟩,
    fun ⟨hproper, hdated, hkept⟩ => ⟨hproper, hdated, hkept⟩⟩

instance (l : Leaf) : Decidable l.Exact := decidable_of_iff _ l.exact_iff.symm

variable {x : Float} {bound n : Nat} {i : Instant}

theorem Exact.readsBack (h : (number x).Exact) : ReadsBack x := h.kept h.proper

theorem Exact.float?_reread (h : (number x).Exact) : (Json.ofFloat x).reread.float? = some x :=
  Json.float?_reread h.readsBack

theorem Exact.lt (h : (count bound n).Exact) : n < bound := h.proper

theorem Exact.plain (h : (instant i).Exact) : i.Plain := ⟨h.dated, h.proper⟩

end Leaf

/-! ## What is read -/

theorem Binary64.isFinite_of_isFinite {x : Float} (h : x.isFinite = true) :
    Scalar.isFinite x = true := by
  show (nonFinite? x).isNone = true
  unfold Float.isFinite Float.Model.isFinite at h
  rw [nonFinite?, parts]
  cases hunpack : x.toModel.unpack with
  | notANumber => rwa [hunpack] at h
  | infinity sign =>
    rw [hunpack] at h
    cases sign <;> exact h
  | zero sign => cases sign <;> rfl
  | finite sign m q hm => cases sign <;> rfl

namespace Json

theorem proper_of_float? {j : Json} {x : Float} (h : j.float? = some x) : (Leaf.number x).Proper := by
  cases j with
  | number n =>
    have hvalue : n.toFloat? = some x := h
    unfold Numeral.toFloat? at hvalue
    dsimp only at hvalue
    split at hvalue
    · obtain rfl := Option.some.inj hvalue
      exact Binary64.isFinite_of_isFinite ‹_›
    · cases hvalue
  | _ => cases h

theorem proper_of_natBelow? {bound n : Nat} {j : Json} (h : natBelow? bound j = some n) :
    (Leaf.count bound n).Proper := by
  cases j with
  | number value =>
    have hfilter : value.toNat?.filter (· < bound) = some n := h
    have hlt : n < bound := by simpa using (Option.filter_eq_some_iff.1 hfilter).2
    exact hlt
  | _ => cases h

theorem proper_of_count64? {n : Nat} {j : Json} (h : j.count64? = some n) :
    (Leaf.count UInt64.size n).Proper := proper_of_natBelow? h

theorem proper_of_count32? {n : Nat} {j : Json} (h : j.count32? = some n) :
    (Leaf.count UInt32.size n).Proper := proper_of_natBelow? h

theorem forall_of_mapM {τ σ : Type} {P : τ → Prop} {f : σ → Option τ}
    (hf : ∀ {y x}, f y = some x → P x) {ys : List σ} {xs : List τ} (h : ys.mapM f = some xs) :
    ∀ x ∈ xs, P x := by
  induction ys generalizing xs with
  | nil =>
    obtain rfl := Option.some.inj h
    exact nofun
  | cons y ys ih =>
    rw [List.mapM_cons] at h
    obtain ⟨x, hx, h⟩ := Option.bind_eq_some_iff.1 h
    obtain ⟨rest, hrest, h⟩ := Option.bind_eq_some_iff.1 h
    obtain rfl := Option.some.inj h
    exact List.forall_mem_cons.2 ⟨hf hx, ih hrest⟩

theorem proper_of_list? {τ : Type} {P : τ → Prop} {item? : Json → Option τ}
    (hitem : ∀ {j x}, item? j = some x → P x) {j : Json} {xs : List τ} (h : list? item? j = some xs) :
    ∀ x ∈ xs, P x := by
  cases j with
  | array items => exact forall_of_mapM hitem h
  | _ => cases h

end Json

theorem Instant.proper_of_ofJson? {j : Json} {i : Instant} (h : ofJson? j = some i) :
    (Leaf.instant i).Proper := by
  obtain ⟨s, -, hread⟩ := Option.bind_eq_some_iff.1 h
  exact nano_of_read? hread

namespace Record

variable {τ : Type} {P : τ → Prop} {value? : Json → Option τ} {r : Record} {name : String}

theorem proper_of_required (hvalue : ∀ {j v}, value? j = some v → P v) {v : τ}
    (h : r.required name value? = some v) : P v := by
  obtain ⟨j, -, hj⟩ := Option.bind_eq_some_iff.1 h
  exact hvalue hj

theorem proper_of_number {x : Float} (h : r.required name Json.float? = some x) :
    (Leaf.number x).Proper := proper_of_required Json.proper_of_float? h

theorem proper_of_count64 {n : Nat} (h : r.required name Json.count64? = some n) :
    (Leaf.count UInt64.size n).Proper := proper_of_required Json.proper_of_count64? h

theorem proper_of_count32 {n : Nat} (h : r.required name Json.count32? = some n) :
    (Leaf.count UInt32.size n).Proper := proper_of_required Json.proper_of_count32? h

theorem proper_of_withDefault {default v : τ} (hdefault : P default)
    (hvalue : ∀ {j v}, value? j = some v → P v) (h : r.withDefault name default value? = some v) :
    P v := by
  unfold withDefault at h
  split at h
  · exact hvalue h
  · obtain rfl := Option.some.inj h
    exact hdefault

theorem proper_of_optional (hvalue : ∀ {j v}, value? j = some v → P v) {v : Option τ}
    (h : r.optional name value? = some v) : ∀ x ∈ v, P x := by
  have hnullable : ∀ {j v}, Json.nullable? value? j = some v → ∀ x ∈ v, P x := by
    intro j v hj x hx
    unfold Json.nullable? at hj
    split at hj
    · obtain rfl := Option.some.inj hj
      cases hx
    · obtain ⟨y, hy, rfl⟩ := Option.map_eq_some_iff.1 hj
      obtain rfl := Option.some.inj hx
      exact hvalue hy
  exact proper_of_withDefault (P := fun v : Option τ => ∀ x ∈ v, P x) (by simp) hnullable h

/-! ## Members that may be left out -/

theorem names_member? (name : String) (value : Option Json) :
    ((Json.member? name value).map (·.1)).Sublist [name] := by
  cases value with
  | none => exact List.nil_sublist _
  | some j => exact .refl _

theorem get?_reread (members : List (String × Json)) (name : String) :
    get? ⟨members.map fun m => (m.1, m.2.reread)⟩ name = (members.lookup name).map Json.reread := by
  induction members with
  | nil => rfl
  | cons m members ih =>
    rw [get?, List.map_cons, Metrics.lookup_cons_eq, Metrics.lookup_cons_eq]
    split
    · rfl
    · exact ih

theorem lookup_member? (name key : String) (value : Option Json) :
    (Json.member? name value).lookup key = if key = name then value else none := by
  cases value with
  | none => exact (ite_self none).symm
  | some j =>
    rw [Json.member?, List.lookup_cons, List.lookup_nil]
    by_cases hkey : key = name
    · rw [if_pos hkey, beq_iff_eq.2 hkey]
    · rw [if_neg hkey, beq_eq_false_iff_ne.2 hkey]

theorem required_reread {members : List (String × Json)} {j : Json} {v : τ}
    (hj : members.lookup name = some j) (hv : value? j.reread = some v) :
    required ⟨members.map fun m => (m.1, m.2.reread)⟩ name value? = some v := by
  refine required_eq ?_ hv
  rw [get?_reread, hj, Option.map_some]

theorem withDefault_reread {members : List (String × Json)} {j : Json} {v default : τ}
    (hj : members.lookup name = some j) (hv : value? j.reread = some v) :
    withDefault ⟨members.map fun m => (m.1, m.2.reread)⟩ name default value? = some v := by
  rw [withDefault, get?_reread, hj, Option.map_some]
  exact hv

theorem optional_reread {members : List (String × Json)} {toJson : τ → Json} {value : Option τ}
    (hnull : value? .null = none) (hj : members.lookup name = value.map toJson)
    (hv : ∀ v ∈ value, value? (toJson v).reread = some v) :
    optional ⟨members.map fun m => (m.1, m.2.reread)⟩ name value? = some value := by
  cases value with
  | none => rw [optional, withDefault, get?_reread, hj, Option.map_none, Option.map_none]
  | some v =>
    refine optional_eq ?_ (Json.nullable?_eq hnull (hv v rfl))
    rw [get?_reread, hj, Option.map_some, Option.map_some]

end Record

/-! ## Forms -/

/-- How the values of a type stand in JSON, and the leaves of a value. -/
structure Form (τ : Type) where
  toJson : τ → Json
  ofJson? : Json → Option τ
  leaves : τ → List Leaf

namespace Form

variable {τ : Type}

/-- The text of a value. -/
def write (F : Form τ) (layout : Json.Layout) (v : τ) : String := Json.write layout (F.toJson v)

/-- The value that a text writes. -/
def read? (F : Form τ) (text : String) : Option τ := (Json.read? text).bind F.ofJson?

/-- What is written of the value that a text writes. -/
def rewrite? (F : Form τ) (layout : Json.Layout) (text : String) : Option String :=
  (F.read? text).map (F.write layout)

/-- Nothing is lost. -/
structure Lossless (F : Form τ) : Prop where
  /-- A value is read as it was written. -/
  read_write : ∀ {layout : Json.Layout} {v : τ}, layout.Blank → (∀ l ∈ F.leaves v, l.Exact) →
    F.read? (F.write layout v) = some v
  /-- Every value that is read has proper leaves. -/
  proper_of_read : ∀ {text : String} {v : τ}, F.read? text = some v → ∀ l ∈ F.leaves v, l.Proper
  /-- What was read and written again is read as before. -/
  read_rewrite : ∀ {layout : Json.Layout} {text : String} {v : τ}, layout.Blank →
    F.read? text = some v → (∀ l ∈ F.leaves v, l.Dated ∧ l.Kept) →
      F.read? (F.write layout v) = some v
  /-- To rewrite a second time changes nothing. -/
  rewrite_idempotent : ∀ {layout layout' : Json.Layout} {text text' : String} {v : τ},
    layout.Blank → F.read? text = some v → (∀ l ∈ F.leaves v, l.Dated ∧ l.Kept) →
      F.rewrite? layout text = some text' → F.rewrite? layout' text' = F.rewrite? layout' text

theorem read?_write_of_reread {F : Form τ} {layout : Json.Layout} (hlayout : layout.Blank) {v : τ}
    (h : F.ofJson? (F.toJson v).reread = some v) : F.read? (F.write layout v) = some v := by
  rw [read?, write, Json.read?_write hlayout, Option.bind_some, h]

/-- A form loses nothing if it reads back its own values and reads proper ones. -/
theorem Lossless.of_reread {F : Form τ}
    (hproper : ∀ {j v}, F.ofJson? j = some v → ∀ l ∈ F.leaves v, l.Proper)
    (hreread : ∀ {v}, (∀ l ∈ F.leaves v, l.Exact) → F.ofJson? (F.toJson v).reread = some v) :
    F.Lossless := by
  have hread : ∀ {text v}, F.read? text = some v → ∀ l ∈ F.leaves v, l.Proper := by
    intro text v h
    obtain ⟨j, -, hj⟩ := Option.bind_eq_some_iff.1 h
    exact hproper hj
  have hrewrite : ∀ {layout text v}, layout.Blank → F.read? text = some v →
      (∀ l ∈ F.leaves v, l.Dated ∧ l.Kept) → F.read? (F.write layout v) = some v := by
    intro layout text v hlayout h hleaves
    refine read?_write_of_reread hlayout (hreread fun l hl => ?_)
    exact ⟨hread h l hl, (hleaves l hl).1, (hleaves l hl).2⟩
  refine ⟨fun hlayout hleaves => read?_write_of_reread hlayout (hreread hleaves), hread, hrewrite, ?_⟩
  intro layout layout' text text' v hlayout h hleaves htext
  obtain rfl : F.write layout v = text' := by
    rw [rewrite?, h] at htext
    exact Option.some.inj htext
  rw [rewrite?, rewrite?, hrewrite hlayout h hleaves, h]

end Form

end CodeQuality
