import LazyFields.Naming
import LazyFields.Path

/-!
# Configuration

The options of a run.  An option that is not set, or an empty list, stands for its default; the
settings are the options with the defaults put in.
-/
namespace LazyFields

structure SchemaConfig where
  path : Option Text := none
deriving DecidableEq, Repr

structure ScanConfig where
  extensions : List Text := []
  qualifier : Option Text := none
  respectIgnoreFiles : Option Bool := none
  extraIgnore : List Text := []
  maxFileSize : Option UInt64 := none
  followLinks : Option Bool := none
deriving DecidableEq

structure NamingConfig where
  messageSuffix : Option Text := none
  responseSuffix : Option Text := none
  requestVerbs : List Text := []
deriving DecidableEq, Repr

structure Config where
  schema : SchemaConfig := {}
  scan : ScanConfig := {}
  naming : NamingConfig := {}
deriving DecidableEq

namespace Config

def defaultSchemaPath : Text := "vbase.proto".toList

def projectFile : Text := "lazyproto.toml".toList

def defaultQualifier : Text := "pogo".toList

def defaultExtensions : List Text := ["go".toList]

def defaultMessageSuffix : Text := "Proto".toList

def defaultResponseSuffix : Text := "OutProto".toList

def defaultRequestVerbs : List Text :=
  ["Get", "Set", "Update", "Create", "Delete", "Send", "Submit"].map String.toList

def defaultMaxFileSize : UInt64 := 10485760

end Config

def SchemaConfig.locate (config : SchemaConfig) (root : Text) : Text :=
  Path.join root (config.path.getD Config.defaultSchemaPath)

structure ScanSettings where
  extensions : List Text
  qualifier : Text
  respectIgnoreFiles : Bool
  extraIgnore : List Text
  maxFileSize : UInt64
  followLinks : Bool

/-- The options of a scan with the defaults put in. -/
def ScanConfig.settings (config : ScanConfig) : ScanSettings where
  extensions := if config.extensions.isEmpty then Config.defaultExtensions else config.extensions
  qualifier := config.qualifier.getD Config.defaultQualifier
  respectIgnoreFiles := config.respectIgnoreFiles.getD false
  extraIgnore := config.extraIgnore
  maxFileSize := config.maxFileSize.getD Config.defaultMaxFileSize
  followLinks := config.followLinks.getD false

def NamingConfig.rules (config : NamingConfig) : NamingRules where
  messageSuffix := config.messageSuffix.getD Config.defaultMessageSuffix
  responseSuffix := config.responseSuffix.getD Config.defaultResponseSuffix
  requestVerbs :=
    if config.requestVerbs.isEmpty then Config.defaultRequestVerbs else config.requestVerbs

end LazyFields
