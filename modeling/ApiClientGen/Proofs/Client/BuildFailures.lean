/-
Why a client is not built.

A client of an interface that was taken from a document is built, or a text names no base class,
or an integer in the models has too many digits, or the default of a field that may be left out
holds a reference that leads nowhere, or the version of the interface cannot be written: its types
name all the models that they need, and the other texts in the description of the package do not
begin with a character by its number.
-/
import ApiClientGen.Client.Library
import ApiClientGen.Proofs.Document.Outcomes
import ApiClientGen.Proofs.Extraction.Interfaces
import ApiClientGen.Proofs.Literal.ReadBack
import ApiClientGen.Proofs.Settings.PackageNames
import ApiClientGen.Proofs.Toml.Writable

namespace ApiClientGen.Client

open ApiClientGen.Canonical ApiClientGen.Document ApiClientGen.Extraction ApiClientGen.Settings
open ApiClientGen.Naming ApiClientGen.Reference ApiClientGen.Spec ApiClientGen.Text ApiClientGen.Toml

variable {spec : ApiSpec} {g : Generation}

/-! ### Types -/

/-- A complete type names the models that it needs. -/
theorem isNamed_of_closed {names : List String} : (t : TypeRef) → t.Closed names → isNamed t = true
  | ⟨kind, model, none, nullable⟩, hclosed => by
      have hcomplete := hclosed ⟨kind, model, none, nullable⟩ (by simp [TypeRef.parts])
      cases kind with
      | model =>
          obtain ⟨name, -, rfl⟩ := hcomplete.model rfl
          rfl
      | string | integer | number | boolean | date | datetime | binary | any | array | map => rfl
  | ⟨kind, model, some item, nullable⟩, hclosed => by
      have hcomplete := hclosed ⟨kind, model, some item, nullable⟩ (by simp [TypeRef.parts])
      have hitem : item.Closed names := fun u hu => hclosed u (by simp [TypeRef.parts, hu])
      cases kind with
      | model =>
          obtain ⟨name, -, rfl⟩ := hcomplete.model rfl
          rfl
      | array | map => exact isNamed_of_closed item hitem
      | string | integer | number | boolean | date | datetime | binary | any => rfl

/-! ### The description of the package -/

/-- The name of a package can be written. -/
theorem text?_packageName (g : Generation) : (text? g.packageName).isSome = true := by
  cases hname : g.packageName.toList with
  | nil =>
      have hempty : g.packageName = "" := String.toList_inj.mp hname
      rw [hempty]
      decide
  | cons c rest =>
      have hc := packageName_chars (g := g) (c := c) (by rw [hname]; simp)
      have hall := Number.of_ascii (P := fun c => isSmallChar c = true ∨ c = '_' →
        escaped '"' c = [c] ∧ c ≠ '\\') (by decide) (toNat_lt_of_isSmallChar_or_lowLine hc)
      obtain ⟨hself, hbackslash⟩ := hall hc
      exact text?_isSome_of_head hname hself hbackslash

/-- What a package is for can be written, since it begins with a letter. -/
theorem text?_purpose (title : String) : (text? ("Клиент для " ++ title)).isSome = true := by
  have hhead : ("Клиент для " ++ title).toList = 'К' :: ("лиент для " ++ title).toList := by simp
  exact text?_isSome_of_head hhead (by decide) (by decide)

/-- How the package is built. -/
def buildFields : Fields Value := [
  ("requires", .list (["setuptools>=61"].map .string)),
  ("build-backend", .string "setuptools.build_meta")]

/-- What the package is. -/
def projectFields (spec : ApiSpec) (g : Generation) : Fields Value := [
  ("name", .string g.packageName),
  ("version", .string (if spec.version = "" then "0.1.0" else spec.version)),
  ("description", .string ("Клиент для " ++ spec.title)),
  ("requires-python", .string ">=3.10"),
  ("dependencies", .list (["aiohttp>=3.8.0", "pydantic>=2.0.0"].map .string))]

theorem packageTable_eq (spec : ApiSpec) (g : Generation) :
    packageTable spec g = [("build-system", buildFields), ("project", projectFields spec g)].map
      fun t => (t.1, .mapping t.2) := rfl

theorem isLine_of_mem_buildFields : ∀ e ∈ buildFields, IsLine e := by
  have htexts : ∀ s ∈ ["setuptools>=61"], (text? s).isSome = true := by decide
  unfold buildFields
  refine List.forall_mem_cons.mpr ⟨?_, List.forall_mem_singleton.mpr ?_⟩
  · exact isLine_strings (by decide) htexts
  · exact isLine_string (by decide) (by decide)

theorem isLine_of_mem_projectFields (hversion : (text? spec.version).isSome = true) :
    ∀ e ∈ projectFields spec g, IsLine e := by
  have hdefault : (text? (if spec.version = "" then "0.1.0" else spec.version)).isSome = true := by
    by_cases hempty : spec.version = ""
    · rw [if_pos hempty]
      decide
    · rw [if_neg hempty]
      exact hversion
  have htexts : ∀ s ∈ ["aiohttp>=3.8.0", "pydantic>=2.0.0"], (text? s).isSome = true := by
    decide
  unfold projectFields
  simp only [List.forall_mem_cons]
  refine ⟨?_, ?_, ?_, ?_, ?_, List.forall_mem_nil _⟩
  · exact isLine_string (by decide) (text?_packageName g)
  · exact isLine_string (by decide) hdefault
  · exact isLine_string (by decide) (text?_purpose spec.title)
  · exact isLine_string (by decide) (by decide)
  · exact isLine_strings (by decide) htexts

/-- The description of a package can be written if its version can. -/
theorem packageFile?_isSome (hversion : (text? spec.version).isSome = true) :
    (packageFile? spec g).isSome = true := by
  have htable : Ends (fun _ => True) (fun _ => False) (write (packageTable spec g)) := by
    rw [packageTable_eq]
    refine write_ends ?_
    simp only [List.forall_mem_cons]
    refine ⟨⟨writtenKey_of_isBareKey (by decide), isLine_of_mem_buildFields⟩,
      ⟨writtenKey_of_isBareKey (by decide), isLine_of_mem_projectFields hversion⟩,
      fun _ h => nomatch h⟩
  obtain ⟨text, htext, -⟩ := htable.exists_ok
  rw [packageFile?, htext]
  rfl

/-! ### Defaults -/

/-- A value that is looked at shows a reference that leads nowhere. -/
inductive ShowsFault (fault : Reference.Fault) : Deferred → Prop where
  | broken : ShowsFault fault (.broken fault)
  | list {items : List (Unit → Deferred)} {v : Unit → Deferred} (hv : v ∈ items)
      (h : ShowsFault fault (v ())) : ShowsFault fault (.list items)
  | mapping {fields : List (String × (Unit → Deferred))} {e : String × (Unit → Deferred)}
      (he : e ∈ fields) (h : ShowsFault fault (e.2 ())) : ShowsFault fault (.mapping fields)

/-- Why values are not written: an integer has too many digits, or a reference leads nowhere. -/
def EndsFor (shows : Reference.Fault → Prop) (fault : LiteralFault) : Prop :=
  fault = .tooManyDigits ∨ ∃ reference, fault = .reference reference ∧ shows reference

theorem EndsFor.mono {P Q : Reference.Fault → Prop} {fault : LiteralFault} (hfault : EndsFor P fault)
    (h : ∀ reference, P reference → Q reference) : EndsFor Q fault :=
  hfault.imp_right fun ⟨reference, heq, hP⟩ => ⟨reference, heq, h reference hP⟩

/-- Values are written, or it is said why not. -/
abbrev IsWritten {α : Type} (shows : Reference.Fault → Prop) (x : Except LiteralFault α) : Prop :=
  Ends (fun _ => True) (EndsFor shows) x

theorem IsWritten.mono {α : Type} {P Q : Reference.Fault → Prop} {x : Except LiteralFault α}
    (hx : IsWritten P x) (h : ∀ reference, P reference → Q reference) : IsWritten Q x :=
  Ends.mono hx (fun _ h => h) fun _ hfault => hfault.mono h

theorem isWritten_scalar (s : Scalar) (P : Reference.Fault → Prop) : IsWritten P (scalarLiteral s) := by
  cases s with
  | int i =>
      rw [Literal.scalarLiteral_int]
      cases isTooLong i with
      | true => exact Or.inl rfl
      | false => exact trivial
  | null | bool | float | string | date | moment | clock | bytes => exact trivial

mutual

/-- A value has a literal or none, unless a part of it shows a fault or is an integer that is too long. -/
theorem isWritten_deferred : (d : Deferred) → IsWritten (ShowsFault · d) (deferredLiteral d)
  | .scalar s => isWritten_scalar s _
  | .list items =>
      ((isWritten_items items).mono fun _ ⟨_, hd, hshows⟩ => .list hd hshows).map fun _ h => h
  | .mapping fields =>
      ((isWritten_fields fields).mono fun _ ⟨_, he, hshows⟩ => .mapping he hshows).map fun _ h => h
  | .nothing => trivial
  | .broken fault => Or.inr ⟨fault, rfl, .broken⟩

theorem isWritten_items : (items : List (Unit → Deferred)) →
    IsWritten (fun reference => ∃ d ∈ items, ShowsFault reference (d ())) (itemLiterals items)
  | [] => trivial
  | d :: rest => by
      refine ((isWritten_deferred (d ())).mono fun _ h => ⟨d, List.mem_cons_self, h⟩).bind
        fun _ _ => ?_
      exact ((isWritten_items rest).mono fun _ => List.exists_mem_cons_of_exists).bind
        fun _ _ => trivial

theorem isWritten_fields : (fields : List (String × (Unit → Deferred))) →
    IsWritten (fun reference => ∃ e ∈ fields, ShowsFault reference (e.2 ())) (fieldLiterals fields)
  | [] => trivial
  | (k, d) :: rest => by
      refine ((isWritten_deferred (d ())).mono fun _ h => ⟨(k, d), List.mem_cons_self, h⟩).bind
        fun l? _ => ?_
      cases l? with
      | none => trivial
      | some l =>
          exact ((isWritten_fields rest).mono fun _ => List.exists_mem_cons_of_exists).bind
            fun _ _ => trivial

end

/-- A record of an interface has a field that may be left out and whose default shows a fault. -/
def HasBrokenDefault (spec : ApiSpec) (reference : Reference.Fault) : Prop :=
  ∃ e ∈ spec.schemas, ∃ fields isOpen, e.2.shape = .record fields isOpen
    ∧ ∃ f ∈ fields, f.required = false ∧ ShowsFault reference f.default

/-- A member that cannot be written is an integer that is too long. -/
theorem eq_tooManyDigits_of_memberFault? {values : List EnumValue} {fault : LiteralFault}
    (h : values.findSome? memberFault? = some fault) : fault = .tooManyDigits := by
  obtain ⟨v, -, hv⟩ := List.exists_of_findSome?_eq_some h
  cases v with
  | text t => cases hv
  | integer i =>
      rw [memberFault?] at hv
      split at hv
      · exact (Option.some.inj hv).symm
      · cases hv

theorem fieldFault?_some {f : RecordField} {fault : LiteralFault} (h : fieldFault? f = some fault) :
    EndsFor (fun reference => f.required = false ∧ ShowsFault reference f.default) fault := by
  unfold fieldFault? at h
  split at h
  · cases h
  · rename_i hrequired
    split at h
    · rename_i hmissing
      obtain rfl := Option.some.inj h
      have hends : IsWritten (ShowsFault · f.default) (missingLiteral f) :=
        (isWritten_deferred f.default).bind fun _ _ => trivial
      exact (hends.of_error hmissing).mono fun _ hshows => ⟨Bool.eq_false_iff.mpr hrequired, hshows⟩
    · cases h

/-- Why the class of a schema cannot be written. -/
theorem classFault?_some {e : String × Schema} (he : e ∈ spec.schemas) {fault : LiteralFault}
    (h : classFault? e.2 = some fault) : EndsFor (HasBrokenDefault spec) fault := by
  unfold classFault? at h
  split at h
  · exact Or.inl (eq_tooManyDigits_of_memberFault? h)
  · rename_i fields isOpen hshape
    obtain ⟨f, hf, hfault⟩ := List.exists_of_findSome?_eq_some h
    exact (fieldFault?_some hfault).mono
      fun _ hshows => ⟨e, he, fields, isOpen, hshape, f, hf, hshows⟩
  · cases h

/-! ### The client -/

/-- Only a base class is not found, or a version cannot be written. -/
theorem baseClasses_ends (derives : List String) :
    Ends (fun _ => True) (fun failure => ∃ dotted, failure = Failure.baseClass dotted)
      (baseClasses derives) := by
  unfold baseClasses
  refine Ends.bind (P := fun _ => True) ?_ fun _ _ => trivial
  refine (Ends.mapM (Q := fun _ => True) fun dotted _ => ?_).mono (fun _ _ => trivial) fun _ h => h
  split
  · trivial
  · exact ⟨dotted, rfl⟩

/--
**Why no client is built**: a text names no base class, an integer has too many digits, a default
shows a reference that leads nowhere, or the version cannot be written.
-/
theorem library_ends {d : CanonicalDocument} (hspec : extract d = .ok spec) :
    Ends (fun _ => True)
      (fun failure => (∃ dotted, failure = .baseClass dotted)
        ∨ (∃ fault, failure = .literal fault ∧ EndsFor (HasBrokenDefault spec) fault)
        ∨ failure = .unwritable ∧ text? spec.version = none)
      (library spec g) := by
  obtain ⟨s, parts, p, -, hmodels, hrun⟩ := extract_ok hspec
  have hclosed := Scope.interface_closed hmodels hrun
  have hnamed : spec.types.all isNamed = true :=
    List.all_eq_true.mpr fun t ht => isNamed_of_closed t (hclosed.1 t ht)
  unfold library
  refine Ends.bind ((baseClasses_ends g.derives).mono (fun _ h => h) fun _ => Or.inl)
    fun bases _ => ?_
  cases hpackage : packageFile? spec g with
  | some package =>
      simp only [hnamed, Bool.not_true, Bool.false_eq_true, if_false]
      split
      · rename_i fault hfault
        obtain ⟨e, he, hclass⟩ := List.exists_of_findSome?_eq_some hfault
        exact Or.inr (Or.inl ⟨fault, rfl, classFault?_some he hclass⟩)
      · trivial
  | none =>
      refine Or.inr (Or.inr ⟨rfl, ?_⟩)
      by_contra hversion
      have hsome := packageFile?_isSome (g := g) (Option.isSome_iff_ne_none.mpr hversion)
      rw [hpackage] at hsome
      cases hsome

end ApiClientGen.Client
