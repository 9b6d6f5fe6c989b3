/-
What becomes of the parameters of version 2.

The parameters of an operation are merged twice on their way into an interface: once as they are
written in version 2, where references are followed to see what replaces what, and once as they
are read off the linked document, where references are followed to what has become a component.
The second time nothing is replaced any more.  So an operation of the interface has one parameter
for each name and place, and everything about it is taken from the last parameter object that has
them.
-/
import ApiClientGen.Proofs.Canonical.Swagger.ParameterObjects
import ApiClientGen.Proofs.Extraction.OperationSources
import ApiClientGen.Proofs.Extraction.Sharing

namespace ApiClientGen.Extraction

open ApiClientGen.Canonical ApiClientGen.Canonical.Swagger ApiClientGen.Document
  ApiClientGen.Naming ApiClientGen.Reference ApiClientGen.Reference.Linked ApiClientGen.Spec
  ApiClientGen.Text Extract

/-! ### The linked document -/

/-- What is looked at while an interface is taken out of a canonical form. -/
theorem prepare_ok {more : Bounds} {d : CanonicalDocument} {s : Scope} {parts : Scope.Parts}
    (h : prepare more d = .ok (s, parts)) :
    (∃ b models, 0 < b.chain ∧ s = scopeOf (linkedFields d) b models)
      ∧ parts.document = (Node.root (.mapping (linkedFields d))).fields := by
  unfold prepare at h
  obtain ⟨linked, hlinked, h⟩ := except_bind_ok.mp h
  obtain ⟨rfl, -⟩ := ofFields_eq_ok.mp (except_mapError_ok.mp hlinked)
  obtain ⟨found, hfound, h⟩ := except_bind_ok.mp h
  cases except_pure_ok.mp h
  refine ⟨⟨(Bounds.ofDocument (.mapping (linkedFields d))).widened more, _,
    Nat.add_pos_left (Nat.succ_pos _) _, rfl⟩, ?_⟩
  unfold Scope.parts at hfound
  obtain ⟨info, -, hfound⟩ := except_bind_ok.mp hfound
  obtain ⟨components, -, hfound⟩ := except_bind_ok.mp hfound
  obtain ⟨schemas, -, hfound⟩ := except_bind_ok.mp hfound
  cases except_pure_ok.mp hfound
  rfl

/-- The nodes under the keys of a mapping that is linked. -/
theorem get?_fields_linked (place : Place) (fields : Fields Value) (key : String) :
    Fields.get? (Node.fields ⟨place, .mapping (fields.map fun e => (e.1, linkedAt e.1 e.2))⟩) key
      = (Fields.get? fields key).map fun v => ⟨.field key :: place, linkedAt key v⟩ := by
  rw [get?_fields_node, Node.field?, Value.asFields, Fields.get?_map linkedAt, Option.map_map]
  rfl

/-- The nodes in a list that is linked. -/
theorem forall₂_items_linked (place : Place) (key : String) (vs : List Value) :
    List.Forall₂ (fun v n => n.value = linkedAt "" v ∧ ∃ i, n.place = .item i :: place) vs
      (Node.items ⟨place, linkedAt key (.list vs)⟩) := by
  rw [byParts_linkedAt.list, Node.items, Value.asItems, List.forall₂_iff_get]
  simp only [List.length_mapIdx, List.length_map, List.get_eq_getElem, List.getElem_mapIdx,
    List.getElem_map]
  exact ⟨trivial, fun i _ _ => ⟨trivial, i, rfl⟩⟩

/-- A mapping that is linked is a reference only if it was one. -/
theorem ref?_linked {fields : Fields Value} (h : Fields.textAt? fields "$ref" = none)
    (place : Place) :
    Node.ref? ⟨place, .mapping (fields.map fun e => (e.1, linkedAt e.1 e.2))⟩ = none := by
  show Fields.textAt? _ "$ref" = none
  rw [textAt?_linkedAt, h]
  rfl

theorem ref?_linked_list (place : Place) (key : String) (vs : List Value) :
    Node.ref? ⟨place, linkedAt key (.list vs)⟩ = none := by
  rw [byParts_linkedAt.list]
  rfl

section

variable {content : Fields Value} {b : Bounds} {models : Fields String}

/-! ### One parameter -/

/-- The parameter that a parameter object has become in the linked document. -/
def linkedParameter (p : ParameterObject) : Value :=
  .mapping ((convertParameter p.fields).map fun e => (e.1, linkedAt e.1 e.2))

theorem plain_convertParameter (p : ParameterObject) :
    Fields.textAt? (convertParameter p.fields) "$ref" = none := by
  rw [textAt?_convertParameter, Fields.textAt?, p.no_ref]
  rfl

/-- A parameter object that stays a parameter is neither a body nor a field of a form. -/
theorem isAt_eq_false_of_isPlain {p : ParameterObject} (h : p.isPlain = true) :
    isAt "body" p.fields = false ∧ isAt "formData" p.fields = false := by
  have hno : ∀ place ∈ plainPlaces, place ≠ "body" ∧ place ≠ "formData" := by decide
  have hne := hno p.place (of_decide_eq_true h)
  simp [isAt, p.placed, hne]

/-- A reference to a shared parameter has become one to the component. -/
theorem linkedAt_convertParameter_of_ref {written : Fields Value} {name : String}
    (href : Fields.textAt? written "$ref" = some ("#/parameters/" ++ name)) :
    linkedAt "" (.mapping (convertParameter written))
      = .mapping [("$ref", .string ("#/components/" ++ "parameters" ++ "/" ++ name))] := by
  have hnodup : (Fields.keys [("$ref", Value.string ("#/parameters/" ++ name))]).Nodup :=
    List.nodup_singleton "$ref"
  rw [convertParameter, Fields.get?_of_textAt? href, linkedAt_mapping hnodup,
    ← canonicalRef_parameters]
  rfl

/-- A shared parameter is linked among the parameters of the components. -/
theorem get?_linked_parameters
    (hshared : (Fields.keys (Fields.fieldsAt content "parameters")).Nodup) {name : String}
    {p : ParameterObject} (hplain : p.isPlain = true)
    (hentry : Fields.get? (Fields.fieldsAt content "parameters") name = some (.mapping p.fields)) :
    Fields.get? (Fields.fieldsAt (linkedFields (upgrade ⟨.swagger2, content⟩)) "components")
          "parameters"
        = some (.mapping ((Fields.fieldsAt (components content) "parameters").map
          fun e => (e.1, linkedAt e.1 e.2)))
      ∧ Fields.get? ((Fields.fieldsAt (components content) "parameters").map
          fun e => (e.1, linkedAt e.1 e.2)) name = some (linkedParameter p) := by
  obtain ⟨hnobody, hnoform⟩ := isAt_eq_false_of_isPlain hplain
  obtain ⟨hnodup, -⟩ := plain_parameters hshared
  have hmem := mem_components_parameters (Fields.mem_of_get? hentry) hnobody hnoform
  constructor
  · rw [linked_components, Fields.get?_map linkedAt, Fields.get?_of_mem_fieldsAt hmem,
      Option.map_some, linkedAt_mapping hnodup]
  · rw [Fields.get?_map linkedAt, Fields.get?_of_mem hnodup hmem, Option.map_some,
      linkedAt_mapping (nodup_keys_convertParameter p.fields)]
    rfl

/-- **Behind the node of an entry is the parameter object that it stands for.** -/
theorem follow_entryNode (hshared : (Fields.keys (Fields.fieldsAt content "parameters")).Nodup)
    (hchain : 0 < b.chain) {e : Entry} {p : ParameterObject}
    (hfor : e.IsFor (Fields.fieldsAt content "parameters") p) (hplain : p.isPlain = true)
    {n : Node} (hvalue : n.value = linkedAt "" (.mapping (convertParameter e.written)))
    (hplace : ∀ name : String, n.place ≠ [.field name, .field "parameters", .field "components"]) :
    ∃ place, (scopeOf (linkedFields (upgrade ⟨.swagger2, content⟩)) b models).follow n
      = .ok ⟨place, linkedParameter p⟩ := by
  obtain ⟨place, value⟩ := n
  obtain ⟨written, resolved⟩ := e
  obtain ⟨-, hwritten⟩ := hfor
  dsimp only at hvalue hwritten hplace
  cases hwritten with
  | inline p =>
      rw [linkedAt_mapping (nodup_keys_convertParameter p.fields)] at hvalue
      subst hvalue
      exact ⟨place, follow_scopeOf (ref?_linked (plain_convertParameter p) place)⟩
  | @shared _ name p ref hname hwithout hentry =>
      obtain ⟨-, hsection⟩ := plain_parameters hshared
      obtain ⟨hentries, htarget⟩ := get?_linked_parameters hshared hplain hentry
      rw [linkedAt_convertParameter_of_ref ref] at hvalue
      subst hvalue
      refine ⟨_, follow_entry b models (root_plain content) (components_plain content) hchain rfl
        (leadsToEntry_section (by decide) (by decide) hname hwithout) hentries ?_ htarget
        (ref?_linked (plain_convertParameter p) []) (hplace name)⟩
      exact (textAt?_linkedAt _).trans (by rw [hsection]; rfl)

/--
**A parameter is taken from a parameter object**: all that it says is read off that.  It is
required at a place in the path, and elsewhere if it says so; its type is found for the schema
among its keywords.
-/
structure TakenFrom (s : Scope) (hint : String) (p : ParameterObject) (q : Parameter) : Prop where
  name : q.name = p.name
  place : q.location.name = p.place
  required : q.required
    = (q.location = .path || Fields.get? p.fields "required" = some (.bool true))
  description : ∃ place, s.textOf ((Fields.get? p.fields "description").map fun v =>
    ⟨place, linkedAt "description" v⟩) = .ok q.description
  type : ∃ place, MayGive (s.typeOfSomething
    (some ⟨place, linkedAt "schema" (.mapping (schemaOf p.fields))⟩) (hint ++ pascalCase q.name)) q.type

theorem isTrue_linkedAt (place : Place) (key : String) (v : Value) :
    isTrue (some ⟨place, linkedAt key v⟩) = decide (v = .bool true) := by
  cases v with
  | scalar v =>
      cases v with
      | bool b => cases b <;> rfl
      | _ => rfl
  | list vs => rw [byParts_linkedAt.list]; rfl
  | mapping fields => rw [byParts_linkedAt.mapping]; rfl

/-- A parameter object that stays a parameter stands at a place of an interface. -/
theorem exists_location {p : ParameterObject} (h : p.isPlain = true) :
    ∃ location : Location, location.name = p.place := by
  have hplaces : ∀ place ∈ plainPlaces, ∃ location : Location, location.name = place := by
    intro place hplace
    simp only [plainPlaces, List.mem_cons, List.not_mem_nil, or_false] at hplace
    rcases hplace with rfl | rfl | rfl | rfl
    · exact ⟨.path, rfl⟩
    · exact ⟨.query, rfl⟩
    · exact ⟨.header, rfl⟩
    · exact ⟨.cookie, rfl⟩
  exact hplaces p.place (of_decide_eq_true h)

/-- The keywords of a parameter object that are carried over stay where they are. -/
theorem get?_linkedParameter (p : ParameterObject) (place : Place) {key : String}
    (hkey : key ∈ ["name", "in", "description", "required", "allowEmptyValue"]) :
    Fields.get? (Node.fields ⟨place, linkedParameter p⟩) key
      = (Fields.get? p.fields key).map fun v => ⟨.field key :: place, linkedAt key v⟩ := by
  rw [linkedParameter, get?_fields_linked, get?_convertParameter p.no_ref hkey]

/-- The keywords that say what a parameter object allows have become its schema. -/
theorem get?_schema_linkedParameter (p : ParameterObject) (place : Place) :
    Fields.get? (Node.fields ⟨place, linkedParameter p⟩) "schema"
      = some ⟨.field "schema" :: place, linkedAt "schema" (.mapping (schemaOf p.fields))⟩ := by
  rw [linkedParameter, get?_fields_linked, get?_schema_convertParameter p.no_ref]
  rfl

/-- **A node with a parameter object behind it** gives a parameter that is taken from that. -/
theorem takenFrom_of_mayGive {s : Scope} (hself : ∀ n, n.ref? = none → s.follow n = .ok n)
    {hint : String} {p : ParameterObject} (hplain : p.isPlain = true) {n : Node} {place : Place}
    (hn : s.follow n = .ok ⟨place, linkedParameter p⟩) {r : Option Parameter}
    (h : MayGive (s.parameter? hint n) r) : ∃ q, r = some q ∧ TakenFrom s hint p q := by
  obtain ⟨location, hlocation⟩ := exists_location hplain
  have hname : Fields.get? (Node.fields ⟨place, linkedParameter p⟩) "name"
      = some ⟨.field "name" :: place, .string p.name⟩ := by
    rw [get?_linkedParameter p place (by decide), p.named]
    rfl
  have hplace : Fields.get? (Node.fields ⟨place, linkedParameter p⟩) "in"
      = some ⟨.field "in" :: place, .string location.name⟩ := by
    rw [get?_linkedParameter p place (by decide), p.placed, hlocation]
    rfl
  have hsomething : isNothing (Fields.get? (Node.fields ⟨place, linkedParameter p⟩) "schema")
      = false := by
    rw [get?_schema_linkedParameter, byParts_linkedAt.mapping]
    rfl
  obtain ⟨q, rfl, hkey, hread⟩ :=
    Scope.parameter?_mayGive hself hn hname p.name_ne hplace hsomething h
  obtain ⟨hqname, rfl⟩ := Prod.ext_iff.mp hkey
  refine ⟨q, rfl, hqname, hlocation, ?_, ?_, ?_⟩
  · rw [hread.required, get?_linkedParameter p place (by decide)]
    cases Fields.get? p.fields "required" with
    | none => rfl
    | some v => rw [Option.map_some, isTrue_linkedAt]; simp
  · have hdescription := hread.description
    rw [get?_linkedParameter p place (by decide)] at hdescription
    exact ⟨_, hdescription⟩
  · have htype := hread.type
    rw [get?_schema_linkedParameter] at htype
    exact ⟨_, htype⟩

/-! ### One operation -/

/-- The node of a path in the linked document. -/
def itemNode (content : Fields Value) (path : String) (item : Fields Value) : Node :=
  ⟨[.field path, .field "paths"],
    .mapping ((convertPathItem content item).map fun e => (e.1, linkedAt e.1 e.2))⟩

/-- The node of an operation in the linked document. -/
def operationNode (content : Fields Value) (path method : String) (item operation : Fields Value) :
    Node :=
  ⟨[.field method, .field path, .field "paths"],
    .mapping ((convertOperation content (Fields.itemsAt item "parameters") operation).map
      fun e => (e.1, linkedAt e.1 e.2))⟩

section

variable {t : Fields Value} {path method : String} {item operation : Fields Value}

theorem ref?_itemNode : (itemNode content path item).ref? = none := by
  have hno : Fields.get? (convertPathItem content item) "$ref" = none := by
    refine Fields.get?_eq_none fun hmem => ?_
    rcases Fields.mem_keys_update.mp hmem with hmem | hmem
    · exact absurd ((keys_operations_sublist content item methods).subset hmem) (by decide)
    · exact notMem_keys_extensions item (by decide) hmem
  exact ref?_linked (by rw [Fields.textAt?, hno]; rfl) _

theorem ref?_operationNode : (operationNode content path method item operation).ref? = none := by
  refine ref?_linked ?_ _
  rw [Fields.textAt?, get?_convertOperation content item operation (by decide) (by decide)]
  generalize ((entriesOf content item operation).filter Entry.isPlain).map (fun e =>
    Value.mapping (convertParameter e.written)) = parameters
  cases requestBody? (typesOf content operation "consumes") (entriesOf content item operation) <;>
    cases parameters <;> simp [Fields.get?]

theorem get?_itemNode (hmethod : method ∈ methods)
    (hget : Fields.get? item method = some (.mapping operation)) :
    Fields.get? (itemNode content path item).fields method
      = some (operationNode content path method item operation) := by
  rw [itemNode, get?_fields_linked, get?_convertPathItem hmethod hget, Option.map_some,
    linkedAt_mapping (nodup_keys_convertOperation _ _ _)]
  rfl

/-- The nodes of the parameters of an operation. -/
theorem exists_itemsOf_operationNode (t content : Fields Value) (b : Bounds)
    (models : Fields String) (path method : String) (item operation : Fields Value) :
    ∃ nodes, (scopeOf t b models).itemsOf
        (Fields.get? (operationNode content path method item operation).fields "parameters")
          = .ok nodes
      ∧ List.Forall₂ (fun e n => n.value = linkedAt "" (.mapping (convertParameter e.written))
          ∧ ∃ i rest, n.place = .item i :: rest)
        ((entriesOf content item operation).filter Entry.isPlain) nodes := by
  rw [operationNode, get?_fields_linked, get?_parameters_convertOperation rfl]
  generalize hentries : (entriesOf content item operation).filter Entry.isPlain = entries
  cases entries with
  | nil => exact ⟨[], rfl, .nil⟩
  | cons e rest =>
      refine ⟨_, itemsOf_of_follow (follow_scopeOf (ref?_linked_list _ _ _)), ?_⟩
      refine (List.forall₂_map_left_iff.mp (forall₂_items_linked _ _ _)).imp ?_
      rintro e n ⟨hvalue, i, hplace⟩
      exact ⟨hvalue, i, _, hplace⟩

end

/-- Parameters that are taken from parameter objects with different keys are all kept. -/
theorem nodup_parameterKey {s : Scope} {hint : String} {objects : List ParameterObject}
    {parameters : List Parameter} (h : List.Forall₂ (TakenFrom s hint) objects parameters)
    (hnodup : (objects.map ParameterObject.key).Nodup) :
    (parameters.map Scope.parameterKey).Nodup := by
  have hkeys : (parameters.map Scope.parameterKey).map (fun k => (k.1, k.2.name))
      = objects.map ParameterObject.key := by
    rw [List.map_map, ← List.forall₂_eq_eq_eq, List.forall₂_map_left_iff,
      List.forall₂_map_right_iff]
    exact h.flip.imp fun _ _ htaken => Prod.ext htaken.name htaken.place
  exact .of_map _ (hkeys ▸ hnodup)

/-- **The parameters of an operation** are taken from the latest parameter objects. -/
theorem forall₂_parameters (hshared : (Fields.keys (Fields.fieldsAt content "parameters")).Nodup)
    (hchain : 0 < b.chain) {path method : String} {item operation : Fields Value}
    (hmethod : method ∈ methods) (hget : Fields.get? item method = some (.mapping operation))
    {all : List ParameterObject}
    (hall : List.Forall₂ (StandsFor (Fields.fieldsAt content "parameters"))
      (Fields.itemsAt item "parameters" ++ Fields.itemsAt operation "parameters") all)
    {o : Operation} (h : (scopeOf (linkedFields (upgrade ⟨.swagger2, content⟩)) b models).ComesOf path
      method (itemNode content path item) o) :
    o.path = path ∧ o.method = method.toUpper
      ∧ List.Forall₂ (TakenFrom (scopeOf (linkedFields (upgrade ⟨.swagger2, content⟩)) b models)
          (pascalCase o.name))
        (latest ParameterObject.key (all.filter ParameterObject.isPlain)) o.parameters := by
  obtain ⟨fields, ofPath, own, hfields, hofPath, hown, hrun⟩ := h.run
  rw [fieldsOf_of_follow (follow_scopeOf ref?_itemNode)] at hfields
  cases hfields
  have hnoParameters : Fields.get? (itemNode content path item).fields "parameters" = none := by
    rw [itemNode, get?_fields_linked, get?_parameters_convertPathItem]
    rfl
  rw [hnoParameters] at hofPath
  obtain rfl : [] = ofPath := Except.ok.inj hofPath
  rw [get?_itemNode hmethod hget, fieldsOf_of_follow (follow_scopeOf ref?_operationNode)] at hown
  cases hown
  obtain ⟨hpath, hmethodName, nodes, hnodes, hparameters⟩ := Scope.operation_mayGive hrun
  refine ⟨hpath, hmethodName, ?_⟩
  obtain ⟨nodes', hnodes', hentries⟩ := exists_itemsOf_operationNode
    (linkedFields (upgrade ⟨.swagger2, content⟩)) content b models path method item operation
  rw [hnodes] at hnodes'
  cases hnodes'
  rw [List.nil_append] at hparameters
  obtain ⟨found, hfound, hlatest⟩ := Scope.parameters_mayGive hparameters
  -- The nodes of the operation are those of its entries, and those are for the latest objects.
  have htaken : List.Forall₂ (fun p r => ∃ q, r = some q ∧ TakenFrom (scopeOf (linkedFields
        (upgrade ⟨.swagger2, content⟩)) b models) (pascalCase o.name) p q)
      (latest ParameterObject.key (all.filter ParameterObject.isPlain)) found := by
    refine (forall₂_comp (forall₂_comp
      (forall₂_plainEntries (forall₂_effectiveEntries hall)).flip hentries) hfound).imp ?_
    rintro p r ⟨n, ⟨e, ⟨hfor, hplain⟩, hvalue, i, rest, hplace⟩, hgive⟩
    obtain ⟨place, hfollow⟩ := follow_entryNode hshared hchain hfor hplain hvalue
      fun name hcontra => by rw [hplace] at hcontra; cases hcontra
    exact takenFrom_of_mayGive (fun n hn => follow_scopeOf hn) hplain hfollow hgive
  have hfound := forall₂_filterMap_id htaken
  rwa [hlatest, latest_eq_self (nodup_parameterKey hfound (nodup_map_latest _ _))]

/-! ### All paths -/

/-- **The paths of the linked document** are those of the converted description. -/
theorem fieldsOf_paths (h : (Fields.keys (Fields.fieldsAt content "paths")).Nodup) :
    (scopeOf (linkedFields (upgrade ⟨.swagger2, content⟩)) b models).fieldsOf
        (Fields.get? (Node.root (.mapping (linkedFields (upgrade ⟨.swagger2, content⟩)))).fields
          "paths")
      = .ok (Node.fields ⟨[.field "paths"], .mapping ((paths content).map fun e =>
          (e.1, linkedAt e.1 e.2))⟩) := by
  have hfixed : Fields.get? (upgrade ⟨.swagger2, content⟩).fields "paths"
      = some (.mapping (canonicalRefFields (paths content))) := by
    have hsorted : (upgrade ⟨.swagger2, content⟩).IsSorted := CanonicalDocument.isSorted_ofFields _
    rw [CanonicalDocument.get?_fields hsorted (by decide), CanonicalDocument.get?_fixedFields,
      ← paths_upgrade]
    rfl
  have hvalue : Fields.get? (linkedFields (upgrade ⟨.swagger2, content⟩)) "paths"
      = some (.mapping ((paths content).map fun e => (e.1, linkedAt e.1 e.2))) := by
    rw [linkedFields_eq_map, Fields.get?_map fun _ => withoutBytes, hfixed, Option.map_some]
    exact congrArg some (linkedAt_mapping ((keys_paths_sublist content).nodup h) "paths")
  have hnode : Fields.get? (Node.root (.mapping (linkedFields (upgrade ⟨.swagger2, content⟩)))).fields
        "paths"
      = some ⟨[.field "paths"], .mapping ((paths content).map fun e => (e.1, linkedAt e.1 e.2))⟩ := by
    rw [get?_fields_node, Node.root, Node.field?, Value.asFields, hvalue]
    rfl
  have hplain : Fields.textAt? (paths content) "$ref" = none := by
    cases hget : Fields.get? (paths content) "$ref" with
    | none => rw [Fields.textAt?, hget]; rfl
    | some v =>
        obtain ⟨⟨key, item⟩, -, he⟩ := List.mem_filterMap.mp (Fields.mem_of_get? hget)
        rw [Fields.textAt?, hget]
        cases item with
        | mapping item => cases he; rfl
        | _ => cases he
  rw [hnode]
  exact fieldsOf_of_follow (follow_scopeOf (ref?_linked hplain _))

/-- The node of a path is the only one that is there for it. -/
theorem mem_paths_iff (h : (Fields.keys (Fields.fieldsAt content "paths")).Nodup) {path : String}
    {item : Fields Value}
    (hpath : Fields.get? (Fields.fieldsAt content "paths") path = some (.mapping item)) {n : Node} :
    (path, n) ∈ Node.fields ⟨[.field "paths"], .mapping ((paths content).map fun e =>
        (e.1, linkedAt e.1 e.2))⟩ ↔ n = itemNode content path item := by
  have hget : Fields.get? (Node.fields ⟨[.field "paths"], .mapping ((paths content).map fun e =>
      (e.1, linkedAt e.1 e.2))⟩) path = some (itemNode content path item) := by
    rw [get?_fields_linked, get?_paths hpath, Option.map_some,
      linkedAt_mapping (nodup_keys_convertPathItem content item)]
    rfl
  have hnodup : (Fields.keys (Node.fields ⟨[.field "paths"], .mapping ((paths content).map fun e =>
      (e.1, linkedAt e.1 e.2))⟩)).Nodup := by
    have hkeys : Fields.keys (Node.fields ⟨[.field "paths"], .mapping ((paths content).map fun e =>
        (e.1, linkedAt e.1 e.2))⟩) = Fields.keys (paths content) :=
      (Fields.keys_map (fun key v => (⟨[.field key, .field "paths"], v⟩ : Node)) _).trans
        (Fields.keys_map linkedAt (paths content))
    rw [hkeys]
    exact (keys_paths_sublist content).nodup h
  constructor
  · intro hmem
    have hself := Fields.get?_of_mem hnodup hmem
    rw [hget] at hself
    exact (Option.some.inj hself).symm
  · rintro rfl
    exact Fields.mem_of_get? hget

end

/-- The methods of operations are told apart by what they are called in an interface. -/
theorem eq_of_toUpper_eq : ∀ method ∈ methods, ∀ method' ∈ methods,
    method.toUpper = method'.toUpper → method = method' := by
  decide +kernel

/--
**An operation of version 2 and its parameters**: what the entries of its path, and then its own,
stand for.
-/
structure Declares (content : Fields Value) (path method : String) (item operation : Fields Value)
    (all : List ParameterObject) : Prop where
  paths_nodup : (Fields.keys (Fields.fieldsAt content "paths")).Nodup
  shared_nodup : (Fields.keys (Fields.fieldsAt content "parameters")).Nodup
  path_item : Fields.get? (Fields.fieldsAt content "paths") path = some (.mapping item)
  method_mem : method ∈ methods
  own_operation : Fields.get? item method = some (.mapping operation)
  entries : List.Forall₂ (StandsFor (Fields.fieldsAt content "parameters"))
    (Fields.itemsAt item "parameters" ++ Fields.itemsAt operation "parameters") all

/--
**Parameters survive.**  An interface has an operation for each one of version 2.  That has one
parameter for each name and place that its parameter objects have, in the order in which these
first have them, and it is taken from the last one that has them.  If there are fields of a form,
then the body of the operation in canonical form has the latest of them.
-/
theorem parameters_survive {content : Fields Value} {path method : String}
    {item operation : Fields Value} {all : List ParameterObject} {spec : ApiSpec}
    (h : Declares content path method item operation all)
    (hspec : extract (upgrade ⟨.swagger2, content⟩) = .ok spec) :
    (∃ s parts, prepare {} (upgrade ⟨.swagger2, content⟩) = .ok (s, parts)
        ∧ (∃ o ∈ spec.operations, o.path = path ∧ o.method = method.toUpper)
        ∧ ∀ o ∈ spec.operations, o.path = path → o.method = method.toUpper →
          List.Forall₂ (TakenFrom s (pascalCase o.name))
            (latest ParameterObject.key (all.filter ParameterObject.isPlain)) o.parameters)
      ∧ (all.filter ParameterObject.isField ≠ [] →
        ∃ item' operation', Fields.get? (upgrade ⟨.swagger2, content⟩).paths path
            = some (.mapping item')
          ∧ Fields.get? item' method = some (.mapping operation')
          ∧ HasForm (Fields.fieldsAt operation' "requestBody")
            (latest ParameterObject.key (all.filter ParameterObject.isField))) := by
  constructor
  · obtain ⟨s, parts, p, hprepare, -, hrun⟩ := extract_ok hspec
    obtain ⟨⟨b, models, hchain, rfl⟩, hdocument⟩ := prepare_ok hprepare
    obtain ⟨paths, hpaths, hoperations⟩ := Scope.interface_mayGive ⟨_, _, hrun⟩
    rw [hdocument, fieldsOf_paths h.paths_nodup] at hpaths
    cases hpaths
    obtain ⟨hcome, hgiven⟩ := Scope.operations_mayGive hoperations
    have hparameters : ∀ o, (scopeOf (linkedFields (upgrade ⟨.swagger2, content⟩)) b models).ComesOf
        path method (itemNode content path item) o → _ := fun _ hfrom =>
      forall₂_parameters h.shared_nodup hchain h.method_mem h.own_operation h.entries hfrom
    refine ⟨_, _, hprepare, ?_, ?_⟩
    · have hhas : (scopeOf (linkedFields (upgrade ⟨.swagger2, content⟩)) b models).HasOperation
          (itemNode content path item) method := by
        refine ⟨_, fieldsOf_of_follow (follow_scopeOf ref?_itemNode), ?_⟩
        rw [get?_itemNode h.method_mem h.own_operation]
        exact isMapping_of_follow (follow_scopeOf ref?_operationNode)
      obtain ⟨o, ho, hfrom⟩ := hgiven _ ((mem_paths_iff h.paths_nodup h.path_item).mpr rfl) method
        h.method_mem hhas
      obtain ⟨hpath, hmethod, -⟩ := hparameters o hfrom
      exact ⟨o, ho, hpath, hmethod⟩
    · intro o ho hpath hmethod
      obtain ⟨⟨path', n⟩, hmem, method', hmethod', hfrom⟩ := hcome o ho
      obtain ⟨fields, ofPath, own, hfields, hofPath, hown, hgive⟩ := hfrom.run
      obtain ⟨rfl, hupper, -⟩ := Scope.operation_mayGive hgive
      cases hpath
      obtain rfl := eq_of_toUpper_eq method' hmethod' method h.method_mem (hupper.symm.trans hmethod)
      obtain rfl := (mem_paths_iff h.paths_nodup h.path_item).mp hmem
      exact (hparameters o hfrom).2.2
  · intro hne
    refine ⟨canonicalRefFields (convertPathItem content item), canonicalRefFields
      (convertOperation content (Fields.itemsAt item "parameters") operation), ?_, ?_, ?_⟩
    · rw [paths_upgrade, get?_canonicalRefFields, get?_paths h.path_item]
      rfl
    · rw [get?_canonicalRefFields, get?_convertPathItem h.method_mem h.own_operation]
      rfl
    · exact hasForm_convertOperation h.entries hne

/-- A parameter object for a value of a simple type. -/
def simpleParameter (name place type : String) (required : Bool) (hname : name ≠ "")
    (hplace : place ∈ plainPlaces ++ ["formData", "body"]) : ParameterObject where
  fields := [("name", .string name), ("in", .string place), ("type", .string type),
    ("required", .bool required)]
  name := name
  place := place
  no_ref := rfl
  named := rfl
  name_ne := hname
  placed := rfl
  place_mem := hplace

/-- The parameters of an operation that replaces a parameter of its path by a shared one. -/
def uploadParameters : List ParameterObject :=
  [simpleParameter "limit" "query" "string" false (by decide) (by decide),
    simpleParameter "id" "path" "string" false (by decide) (by decide),
    simpleParameter "limit" "query" "integer" true (by decide) (by decide),
    simpleParameter "kind" "formData" "string" false (by decide) (by decide),
    simpleParameter "photo" "formData" "file" true (by decide) (by decide)]

/-- That operation. -/
def uploadOperation : Fields Value :=
  [("parameters", .list (.mapping [("$ref", .string "#/parameters/Limit")]
      :: (uploadParameters.drop 3).map fun p => .mapping p.fields)),
    ("responses", .mapping [])]

/-- The path of that operation. -/
def uploadItem : Fields Value :=
  [("parameters", .list ((uploadParameters.take 2).map fun p => .mapping p.fields)),
    ("post", .mapping uploadOperation)]

/-- A description with that path. -/
def uploadContent : Fields Value :=
  [("swagger", .string "2.0"),
    ("info", .mapping [("title", .string "t"), ("version", .string "1")]),
    ("parameters", .mapping [("Limit", .mapping (simpleParameter "limit" "query" "integer" true
      (by decide) (by decide)).fields)]),
    ("paths", .mapping [("/pets", .mapping uploadItem)])]

theorem parameters_survive_uploadContent :
    Declares uploadContent "/pets" "post" uploadItem uploadOperation uploadParameters
      ∧ (latest ParameterObject.key (uploadParameters.filter ParameterObject.isPlain)).map
        ParameterObject.fields
          = [(simpleParameter "limit" "query" "integer" true (by decide) (by decide)).fields,
            (simpleParameter "id" "path" "string" false (by decide) (by decide)).fields]
      ∧ ∃ spec s parts, extract (upgrade ⟨.swagger2, uploadContent⟩) = .ok spec
        ∧ prepare {} (upgrade ⟨.swagger2, uploadContent⟩) = .ok (s, parts)
        ∧ (∃ o ∈ spec.operations, List.Forall₂ (TakenFrom s (pascalCase o.name))
          (latest ParameterObject.key (uploadParameters.filter ParameterObject.isPlain))
          o.parameters)
        ∧ ∃ body, HasForm body
          (latest ParameterObject.key (uploadParameters.filter ParameterObject.isField)) := by
  have hdeclares :
      Declares uploadContent "/pets" "post" uploadItem uploadOperation uploadParameters :=
    ⟨by decide, by decide, rfl, by decide, rfl, .cons (.inline _) (.cons (.inline _)
      (.cons (.shared (show _ = some ("#/parameters/" ++ "Limit") from rfl) (by decide)
        (by decide) rfl) (.cons (.inline _) (.cons (.inline _) .nil))))⟩
  have hgives : (extract (upgrade ⟨.swagger2, uploadContent⟩)).toOption.isSome = true := by
    decide +kernel
  obtain ⟨spec, hspec⟩ : ∃ spec, extract (upgrade ⟨.swagger2, uploadContent⟩) = .ok spec := by
    cases hextract : extract (upgrade ⟨.swagger2, uploadContent⟩) with
    | ok spec => exact ⟨spec, rfl⟩
    | error e => rw [hextract] at hgives; cases hgives
  obtain ⟨⟨s, parts, hprepare, ⟨o, ho, hpath, hmethod⟩, hall⟩, hform⟩ :=
    parameters_survive hdeclares hspec
  obtain ⟨item', operation', -, -, hbody⟩ :=
    hform (by simp [uploadParameters, simpleParameter, ParameterObject.isField])
  exact ⟨hdeclares, by decide +kernel, spec, s, parts, hspec, hprepare,
    ⟨o, ho, hall o ho hpath hmethod⟩, _, hbody⟩

end ApiClientGen.Extraction
