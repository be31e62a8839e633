import TaggedRecords.Settings
import TaggedRecords.Traversal

/-!
# The engine

Validates records against their tags with the registered rules and returns the documents to store, with
or without writing transformed values back into the record.
-/

namespace TaggedRecords

/-- Record types, rules and settings. The cache of metadata is handed from run to run. -/
structure Engine where
  catalog : Catalog
  registry : Registry
  settings : Settings

namespace Engine

/-- What a run of this engine keeps in view. -/
def setting (engine : Engine) (context : Context) (options : Options) : Setting :=
  ⟨engine.registry, engine.settings.maxDepth, context, options⟩

/-- The plan of a run over a snapshot. -/
def plan (engine : Engine) (context : Context) (options : Options) (snapshot : RecordValue) : Plan Document :=
  walkRecord (engine.setting context options) (engine.settings.maxDepth + 1) snapshot Place.root true

/-- Validates a snapshot. Writing back is refused. -/
def validateSnapshot (engine : Engine) (cache : MetadataCache) (context : Context) (options : Options)
    (snapshot : RecordValue) : Run Document :=
  if options.writesBack then ⟨.error .readOnly, cache, [], none⟩
  else (engine.plan context options snapshot).run engine.catalog engine.registry cache none

/-- Validates a record. Writing back is refused. -/
def validate (engine : Engine) (cache : MetadataCache) (context : Context) (options : Options)
    (record : TypedRecord) : Run Document :=
  engine.validateSnapshot cache context options (record.snapshot engine.catalog)

/-- Validates a record and, if the options ask for it, writes each transformed value back at once; what was
written before a failure stays written. -/
def validateMut (engine : Engine) (cache : MetadataCache) (context : Context) (options : Options)
    (record : TypedRecord) : Run Document :=
  (engine.plan context options (record.snapshot engine.catalog)).run engine.catalog engine.registry cache
    (if options.writesBack then some record else none)

/-- The metadata of a record type. -/
def metadata (engine : Engine) (cache : MetadataCache) (type : RecordType) :
    Except Fault RecordMetadata × MetadataCache :=
  cache.getOrBuild engine.catalog engine.registry type

end Engine

end TaggedRecords
