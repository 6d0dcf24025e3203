import ResponseShapes.Declaration.Module
import ResponseShapes.Endpoint.Table

/-!
# The wiring module

The module that endpoints import at run time: the lookup objects of the units that a handler refers to, one object
with an entry for each handler of each endpoint, the decorator that looks an entry up, and a shorthand of it for each
endpoint. An endpoint without handlers appears nowhere.
-/

namespace ResponseShapes

/-- An import of one name. -/
structure NameImport where
  name : String
  specifier : String
  deriving DecidableEq, Repr

/-- The import as it is written. -/
def NameImport.line (i : NameImport) : String :=
  "import \x7b " ++ i.name ++ " \x7d from '" ++ i.specifier ++ "';"

/-- What the wiring module holds: the imports of lookup objects, and the handlers of each endpoint by its key. -/
structure Wiring where
  imports : List NameImport
  blocks : List (String × Entries Mapping)
  deriving Repr

namespace Wiring

/-- The endpoints of a table that have handlers. -/
def blocksOf (t : LookupTable) : List (String × Entries Mapping) :=
  (t.endpoints.values.filter fun e => !e.handlers.isEmpty).map fun e => (e.key, e.handlers)

/-- The units that the mappings of a table refer to, each of them once. -/
def unitNames (t : LookupTable) : List String :=
  (t.endpoints.values.flatMap fun e => e.handlers.values.map (·.unit)).eraseDups

/-- The declared units that the mappings of a table refer to, in the order of their names. -/
def referencedUnits (t : LookupTable) : List DeclaredUnit :=
  ((unitNames t).mergeSort fun a b => !decide (b < a)).filterMap t.unit?

/-- The import of a unit's lookup object from the directory of the declarations. -/
def lookupImport (directory : String) (d : DeclaredUnit) : NameImport :=
  { name := d.lookup, specifier := directory ++ "/" ++ Naming.specifier d.unit }

/-- The wiring of a table, whose declarations lie in the given directory. -/
def ofTable (directory : String) (t : LookupTable) : Wiring :=
  let directory := String.ofList (Text.dropEndWhile (· == '/') directory.toList)
  { imports := (referencedUnits t).map (lookupImport directory), blocks := blocksOf t }

/-! ### Text -/

/-- A handler as an entry of its endpoint. -/
def entryText (entry : String × Mapping) : String :=
  "    " ++ propertyKey entry.1 ++ ": \x7b\n      type: " ++ entry.2.reference ++ ",\n      isArray: " ++
    (if entry.2.isList then "true" else "false") ++ ",\n      status: '" ++ entry.2.status.word ++ "',\n    \x7d,"

/-- An endpoint with its handlers. -/
def blockText (block : String × Entries Mapping) : String :=
  "  " ++ propertyKey block.1 ++ ": \x7b\n" ++ String.intercalate "\n" (block.2.map entryText) ++ "\n  \x7d,"

/-- The object with all entries. -/
def objectText (blocks : List (String × Entries Mapping)) : String :=
  if blocks.isEmpty then "export const RESPONSE_CONFIG = \x7b\x7d as const;"
  else
    "export const RESPONSE_CONFIG = \x7b\n" ++ String.intercalate "\n" (blocks.map blockText) ++ "\n\x7d as const;"

/-- The decorator that looks an entry up. -/
def helperLines (docs : Documentation) : List String :=
  ["export type ResponseConfig = typeof RESPONSE_CONFIG;",
   "export type EndpointKey = keyof ResponseConfig & string;",
   "",
   "type ResponseConfigEntry = \x7b",
   "  type: unknown;",
   "  isArray: boolean;",
   "  status: 'ok' | 'created';",
   "\x7d;",
   "",
   "export interface InferredResponseOptions extends Omit<ApiResponseOptions, 'type' | 'status'> \x7b",
   "  /** Override the detected array setting. */",
   "  isArray?: boolean;",
   "  /** Override the detected status. */",
   "  status?: 'ok' | 'created';",
   "\x7d",
   "",
   "/**",
   " * Applies " ++ docs.createdDecorator ++ " or " ++ docs.okDecorator ++ " for a handler using the",
   " * generated entry of the given endpoint. Handlers without an entry are left",
   " * undecorated and a warning is printed.",
   " */",
   "export function InferredAPIResponse(",
   "  endpoint: EndpointKey,",
   "  options: InferredResponseOptions = \x7b\x7d,",
   "): MethodDecorator \x7b",
   "  return (target: object, propertyKey: string | symbol, descriptor: PropertyDescriptor) => \x7b",
   "    const handler = String(propertyKey);",
   "    const handlers = RESPONSE_CONFIG[endpoint] as unknown as Record<string, ResponseConfigEntry> | undefined;",
   "    const entry = handlers ? handlers[handler] : undefined;",
   "    if (!entry) \x7b",
   "      console.warn(`No response config found for $\x7bString(endpoint)\x7d.$\x7bhandler\x7d`);",
   "      return descriptor;",
   "    \x7d",
   "",
   "    const \x7b isArray, status, description, ...rest \x7d = options;",
   "    const decoratorOptions: ApiResponseOptions = \x7b",
   "      ...rest,",
   "      type: entry.type as ApiResponseOptions['type'],",
   "      description: description ?? 'Success response',",
   "    \x7d;",
   "    if (isArray ?? entry.isArray) \x7b",
   "      (decoratorOptions as \x7b isArray?: boolean \x7d).isArray = true;",
   "    \x7d",
   "",
   "    const decorator = (status ?? entry.status) === 'created' ? " ++ docs.createdDecorator ++ " : " ++
     docs.okDecorator ++ ";",
   "    return decorator(decoratorOptions)(target, propertyKey, descriptor);",
   "  \x7d;",
   "\x7d",
   "",
   "export const InferredOkResponse = (endpoint: EndpointKey, options: InferredResponseOptions = \x7b\x7d) =>",
   "  InferredAPIResponse(endpoint, \x7b ...options, status: 'ok' \x7d);",
   "",
   "export const InferredCreatedResponse = (endpoint: EndpointKey, options: InferredResponseOptions = \x7b\x7d) =>",
   "  InferredAPIResponse(endpoint, \x7b ...options, status: 'created' \x7d);"]

/-- The shorthand of the decorator for an endpoint. -/
def shorthandText (key : String) : String :=
  "export const " ++ key ++ "InferredResponse = (options: InferredResponseOptions = \x7b\x7d) =>\n" ++
    "  InferredAPIResponse('" ++ key ++ "', options);"

/-- The lines of the module. -/
def lines (docs : Documentation) (w : Wiring) : List String :=
  [banner,
   "import \x7b " ++ docs.okDecorator ++ ", " ++ docs.createdDecorator ++ ", ApiResponseOptions \x7d from '" ++
     docs.module ++ "';"] ++
    w.imports.map NameImport.line ++ ["", objectText w.blocks, ""] ++ helperLines docs ++
    (if w.blocks.isEmpty then [] else "" :: w.blocks.map fun b => shorthandText b.1)

/-- The text of the module. -/
def text (docs : Documentation) (w : Wiring) : String :=
  String.intercalate "\n" (lines docs w) ++ "\n"

end Wiring

end ResponseShapes
