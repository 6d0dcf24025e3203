import ResponseShapes.Number.Binary64
import ResponseShapes.Project.Path

/-!
# Settings

The conventions by which units and endpoints are found and paired, the names that the documentation framework
exports, and where sources and outputs lie.
-/

namespace ResponseShapes

/-- The conventions of a project's names. -/
structure Conventions where
  unitSuffix : String
  endpointSuffix : String
  responseSuffix : String
  createVerb : String
  verbs : List String
  marker : String
  arrayMarker : String
  createdMarker : String
  deriving DecidableEq, Repr

namespace Conventions

/-- The conventions that hold unless others are given. -/
def standard : Conventions :=
  { unitSuffix := "Service", endpointSuffix := "Controller", responseSuffix := "Response", createVerb := "Post"
    verbs := ["Get", "Post", "Put", "Patch", "Delete", "Options", "Head"], marker := "InferAPIResponse"
    arrayMarker := "InferAPIArrayResponse", createdMarker := "InferAPICreatedResponse" }

/-- The decorators that ask for documentation. -/
def markers (c : Conventions) : List String :=
  [c.marker, c.arrayMarker, c.createdMarker]

end Conventions

/-- The names that the documentation framework exports, and its module. -/
structure Documentation where
  module : String
  propertyDecorator : String
  okDecorator : String
  createdDecorator : String
  deriving DecidableEq, Repr

/-- The framework that is used unless another is given. -/
def Documentation.standard : Documentation :=
  { module := "@nestjs/swagger", propertyDecorator := "ApiProperty", okDecorator := "ApiOkResponse"
    createdDecorator := "ApiCreatedResponse" }

/-- The settings of a project. -/
structure Settings where
  root : Path
  sourceDir : String
  outputDir : String
  servicePattern : String
  controllerPattern : String
  /-- Whether modules of units that no longer exist are removed. -/
  clean : Bool
  excludePaths : List String
  conventions : Conventions
  documentation : Documentation
  /-- The age in seconds beyond which a lock belongs to nobody. -/
  lockTimeout : Binary64
  deriving DecidableEq, Repr

namespace Settings

/-- The settings that hold unless others are given. -/
def standard (root : Path) : Settings :=
  { root, sourceDir := "src", outputDir := "src/generated", servicePattern := "**/*.service.ts"
    controllerPattern := "**/*.controller.ts", clean := true, excludePaths := []
    conventions := Conventions.standard, documentation := Documentation.standard
    lockTimeout := Binary64.ofQuotient false 30 1 }

/-- The directory of the sources. -/
def sourceRoot (s : Settings) : Path :=
  s.root.join (Path.ofString s.sourceDir)

/-- The directory of the outputs. -/
def outputRoot (s : Settings) : Path :=
  s.root.join (Path.ofString s.outputDir)

/-- The directory of the declaration modules. -/
def declarationsDir (s : Settings) : Path :=
  s.outputRoot.child "responses"

end Settings

end ResponseShapes
