import ConfigSchema.Proofs.DeclaredTypes
import ConfigSchema.Proofs.DocumentParts

/-!
# What interfaces promise

An interface promises that every type that lists it has a field of each of its names and lists
each interface that it lists itself.  Nothing that sources are checked for asks for that, so a
graph keeps the promises exactly if what the sources declare does.  Where it does, an object type
counts among the implementors of every interface that it comes to through others, and its
properties have the names of all fields of the interface.
-/

namespace ConfigSchema

/-! ## Promises in graphs -/

/-- A type has a field of every name that an interface has, and lists what the interface lists. -/
structure TypeDef.Keeps (type interface : TypeDef) : Prop where
  fields : ∀ field ∈ interface.fields, field.name ∈ type.fields.map (·.name)
  interfaces : ∀ name ∈ interface.interfaces, name ∈ type.interfaces

namespace TypeGraph

variable {graph : TypeGraph} {settings : Settings}

def KeepsPromises (graph : TypeGraph) : Prop :=
  ∀ type ∈ graph.types, ∀ interface ∈ graph.types, interface.name ∈ type.interfaces →
    type.Keeps interface

/-- A name stands for a type that lists an interface. -/
def Implements (graph : TypeGraph) (name interface : String) : Prop :=
  ∃ type ∈ graph.types, type.name = name ∧ interface ∈ type.interfaces

/-- Where the promises are kept, interfaces that are come to through others are listed, too. -/
theorem KeepsPromises.implements_of_transGen (hkeeps : graph.KeepsPromises)
    {name interface : String}
    (hpath : Relation.TransGen graph.Implements name interface) :
    graph.Implements name interface := by
  induction hpath with
  | single hstep => exact hstep
  | tail _ hstep ih =>
      obtain ⟨type, htype, hname, hlists⟩ := ih
      obtain ⟨between, hbetween, rfl, hmore⟩ := hstep
      exact ⟨type, htype, hname, (hkeeps type htype between hbetween hlists).interfaces _ hmore⟩

theorem KeepsPromises.mem_implementors_of_transGen (hkeeps : graph.KeepsPromises)
    (hindexed : graph.IsIndexed) {type : TypeDef} (htype : type ∈ graph.objects)
    {interface : String} (hpath : Relation.TransGen graph.Implements type.name interface) :
    type.name ∈ graph.implementors interface := by
  obtain ⟨other, hother, hname, hlists⟩ := hkeeps.implements_of_transGen hpath
  have hsame := hindexed.eq_of_name_eq hother (mem_objects_iff.1 htype).1 hname
  exact mem_implementors_iff.2 ⟨type, htype, hsame ▸ hlists, rfl⟩

/-- Where the promises are kept, an implementor of an interface has a property for every field
that is listed below a field of that interface. -/
theorem KeepsPromises.exists_properties_of_implementors [Runtime] (hkeeps : graph.KeepsPromises)
    (hindexed : graph.IsIndexed) (hnames : (graph.types.map (·.name)).Nodup) {asked : Json}
    {document : SchemaDocument} (hok : graph.document settings asked = .ok document)
    {interface : TypeDef} (hinterface : interface ∈ graph.types) {name : String}
    (hname : name ∈ graph.implementors interface.name) :
    ∃ type ∈ graph.objects, type.name = name ∧ ∃ properties,
      ShowsProperties document (rootFor asked settings) type properties ∧
        ∀ field ∈ interface.fields, field.name ∈ properties.nodes.names := by
  obtain ⟨type, htype, hlists, rfl⟩ := mem_implementors_iff.1 hname
  obtain ⟨properties, hproperties, hshows⟩ :=
    exists_properties_of_document hindexed hnames hok htype
  have hkept := hkeeps type (mem_objects_iff.1 htype).1 interface hinterface hlists
  exact ⟨type, htype, rfl, properties, hshows, fun field hfield =>
    (mem_names_of_properties hproperties).2 (hkept.fields field hfield)⟩

end TypeGraph

/-! ## Promises in documents -/

namespace Sdl

variable {document : Document} {name : String}

/-- A type is declared with a field of every name that an interface is declared with, and with
every interface of the interface. -/
structure Keeps (document : Document) (name interface : String) : Prop where
  fields : ∀ field ∈ fieldsOf document interface,
    field.name ∈ (fieldsOf document name).map (·.name)
  interfaces : ∀ other ∈ interfacesOf document interface, other ∈ interfacesOf document name

def KeepsPromises (document : Document) : Prop :=
  ∀ name, ∀ interface ∈ interfacesOf document name, Keeps document name interface

/-- Of documents that say the same about types, both keep the promises or none does. -/
theorem keepsPromises_congr {other : Document}
    (hparts : ∀ name, partsOf other name = partsOf document name) :
    KeepsPromises other ↔ KeepsPromises document := by
  have hfields : fieldsOf other = fieldsOf document := by
    funext name
    rw [fieldsOf, fieldsOf, hparts]
  have hinterfaces : interfacesOf other = interfacesOf document := by
    funext name
    rw [interfacesOf, interfacesOf, hparts]
  have hkeeps : ∀ name interface,
      Keeps other name interface ↔ Keeps document name interface := by
    intro name interface
    constructor
    · rintro ⟨hhas, hlists⟩
      rw [hfields] at hhas
      rw [hinterfaces] at hlists
      exact ⟨hhas, hlists⟩
    · rintro ⟨hhas, hlists⟩
      constructor
      · rwa [hfields]
      · rwa [hinterfaces]
  simp only [KeepsPromises, hinterfaces, hkeeps]

end Sdl

namespace Schema

variable {schema : Schema} {document : Sdl.Document} {name : String} {type : TypeDef}

theorem exists_shape_of_isKind (hkind : schema.isKind (· = .interface) name = true)
    (hget : schema.toGraph.index.get? name = some type) :
    ∃ fields interfaces, type.shape = .interface fields interfaces := by
  obtain ⟨named, hnamed, hgraph⟩ := exists_type?_of_get? hget
  obtain ⟨other, hother, hinterface⟩ := isKind_iff.1 hkind
  rw [hnamed, Option.some.injEq] at hother
  subst hother
  obtain ⟨-, shape, hshape, rfl⟩ := NamedType.toGraph?_eq_some_iff.1 hgraph
  cases hown : named.shape with
  | interface interfaces fields =>
      rw [hown] at hshape
      cases hshape
      exact ⟨_, _, rfl⟩
  | _ => simp [hown, Shape.kind] at hinterface

/-- What a type of the graph lists are interfaces of the graph. -/
theorem exists_interface_of_mem (hwell : schema.isWellKinded = true)
    (htype : type ∈ schema.toGraph.types) (hname : name ∈ type.interfaces) :
    ∃ interface ∈ schema.toGraph.types, interface.name = name ∧
      ∃ fields interfaces, interface.shape = .interface fields interfaces := by
  have hkind := (fitsKinds_of_mem hwell htype).interfaces name hname
  have hindex : name ∈ schema.toGraph.index.names :=
    (mem_names_iff_of_references hwell htype (TypeDef.mem_references_iff.2 (.inr (.inl hname)))).2
      (isInterface_notMem_introspectionNames hkind)
  obtain ⟨interface, hget⟩ := Option.isSome_iff_exists.1 (Entries.get?_isSome_iff.2 hindex)
  obtain ⟨hmem, hsame⟩ := (isIndexed_toGraph schema _ _).1 hget
  exact ⟨interface, hmem, hsame, exists_shape_of_isKind hkind hget⟩

theorem IsOf.keeps_iff [Runtime] (hof : schema.IsOf document) (htype : type ∈ schema.toGraph.types)
    {interface : TypeDef} (hinterface : interface ∈ schema.toGraph.types) :
    type.Keeps interface ↔ Sdl.Keeps document type.name interface.name := by
  obtain ⟨hfields, hinterfaces⟩ := hof.says_of_mem htype
  obtain ⟨hpromised, hlisted⟩ := hof.says_of_mem hinterface
  have hnames : type.fields.map (·.name) =
      (Sdl.fieldsOf document type.name).map (·.name) := by
    rw [hfields, List.map_map]
    rfl
  constructor
  · rintro ⟨hhas, hlists⟩
    rw [hpromised, hnames, List.forall_mem_map] at hhas
    rw [hinterfaces, hlisted] at hlists
    exact ⟨hhas, hlists⟩
  · rintro ⟨hhas, hlists⟩
    constructor
    · rw [hpromised, hnames, List.forall_mem_map]
      exact hhas
    · rw [hinterfaces, hlisted]
      exact hlists

/-- A graph keeps the promises of its interfaces exactly if its document does. -/
theorem IsOf.keepsPromises_iff [Runtime] (hof : schema.IsOf document) :
    schema.toGraph.KeepsPromises ↔ Sdl.KeepsPromises document := by
  constructor
  · intro hkeeps name promised hpromised
    have hdeclared := hpromised
    rw [Sdl.interfacesOf] at hdeclared
    split at hdeclared
    · contradiction
    · next hname =>
        obtain ⟨part, hpart, hlists⟩ := List.mem_flatMap.1 hdeclared
        obtain ⟨type, htype, rfl⟩ := hof.exists_of_mem_partsOf hpart
          (Sdl.TypeBody.kind_ne_input_of_mem_listed
            (Sdl.TypeBody.mem_listed_of_mem_interfaces hlists)) hname
        rw [← (hof.says_of_mem htype).2] at hpromised
        obtain ⟨interface, hinterface, rfl, -⟩ :=
          exists_interface_of_mem hof.isWellKinded htype hpromised
        exact (hof.keeps_iff htype hinterface).1 (hkeeps type htype interface hinterface hpromised)
  · intro hkeeps type htype interface hinterface hlists
    rw [(hof.says_of_mem htype).2] at hlists
    exact (hof.keeps_iff htype hinterface).2 (hkeeps type.name interface.name hlists)

end Schema

/-! ## Promises of sources -/

namespace Sources

variable {around : Surroundings} {sources : List String} {schema : Schema}

theorem load_keeps_declared_promises [Runtime] (hload : (load around sources).result = .ok schema) :
    ∃ document, definitions around sources = .ok document ∧
      let graph := schema.toGraph
      (∀ type ∈ graph.types, ∀ name ∈ type.interfaces,
        ∃ interface ∈ graph.types, interface.name = name ∧
          ∃ fields interfaces, interface.shape = .interface fields interfaces) ∧
        (graph.KeepsPromises ↔ Sdl.KeepsPromises document) ∧
        (graph.KeepsPromises →
          (∀ type ∈ graph.objects, ∀ interface,
            Relation.TransGen graph.Implements type.name interface →
              type.name ∈ graph.implementors interface) ∧
          ∀ settings asked made, graph.document settings asked = .ok made →
            ∀ interface ∈ graph.types, ∀ name ∈ graph.implementors interface.name,
              ∃ type ∈ graph.objects, type.name = name ∧ ∃ properties,
                TypeGraph.ShowsProperties made (TypeGraph.rootFor asked settings) type
                    properties ∧
                  ∀ field ∈ interface.fields, field.name ∈ properties.nodes.names) := by
  obtain ⟨document, hdefinitions, -, hschema⟩ := load_eq_ok_iff.1 hload
  have hof := Schema.ofDocument?_eq_some_iff.1 hschema
  have hindexed := Schema.isIndexed_toGraph schema
  have hnames := Schema.nodup_names_toGraph hof.nodup_names_types
  refine ⟨document, hdefinitions, ?_, ?_, ?_⟩
  · intro type htype name hname
    exact Schema.exists_interface_of_mem hof.isWellKinded htype hname
  · rw [hof.keepsPromises_iff]
    exact Sdl.keepsPromises_congr (Sdl.partsOf_firsts (marks ++ document))
  · intro hkeeps
    refine ⟨?_, ?_⟩
    · intro type htype interface hpath
      exact hkeeps.mem_implementors_of_transGen hindexed htype hpath
    · intro settings asked made hmade interface hinterface name hname
      exact hkeeps.exists_properties_of_implementors hindexed hnames hmade hinterface hname

/-- A type that lists an interface without one of its fields and without its interface. -/
def brokenSource : String :=
  "interface Item \x7b size: Int \x7d " ++
    "interface Thing implements Item \x7b name: ID size: Int \x7d " ++
    "type Query implements Thing \x7b name: ID \x7d"

section Usual

attribute [local instance] Runtime.usual

theorem brokenSource_loads :
    ∃ schema document, (load bareSurroundings [brokenSource]).result = .ok schema ∧
      definitions bareSurroundings [brokenSource] = .ok document ∧
      ¬ Sdl.KeepsPromises document ∧ ¬ schema.toGraph.KeepsPromises := by
  have hloaded : ((load bareSurroundings [brokenSource]).result.toOption.any fun schema =>
      schema.toGraph.types.any fun type => schema.toGraph.types.any fun interface =>
        type.interfaces.contains interface.name &&
          interface.interfaces.any fun name => !type.interfaces.contains name) = true := by
    decide +kernel
  obtain ⟨schema, hsome, hbroken⟩ := (Option.any_eq_true _ _).1 hloaded
  have hload := Results.eq_ok_of_toOption hsome
  obtain ⟨document, hdefinitions, -, hkeeps, -⟩ := load_keeps_declared_promises hload
  simp only [List.any_eq_true, Bool.and_eq_true, List.contains_iff_mem, Bool.not_eq_true',
    ← Bool.not_eq_true] at hbroken
  obtain ⟨type, htype, interface, hinterface, hlists, name, hname, hmissing⟩ := hbroken
  have hgraph : ¬ schema.toGraph.KeepsPromises := fun hkept =>
    hmissing ((hkept type htype interface hinterface hlists).interfaces name hname)
  exact ⟨schema, document, hload, hdefinitions, fun hdeclared => hgraph (hkeeps.2 hdeclared),
    hgraph⟩

end Usual

end Sources

end ConfigSchema
