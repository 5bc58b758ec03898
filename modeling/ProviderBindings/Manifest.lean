import ProviderBindings.Json

/-!
# Compiler manifests

The schema compiler is driven by a `package.json` beside the code it compiles, which names the package
and says where its entry point is.
-/

namespace ProviderBindings

/-- What a manifest is written for. -/
structure Manifest where
  /-- The provider or module compiled. -/
  entryPoint : String
  /-- The name of the package. -/
  package : String
  /-- The directory that holds the entry point. -/
  typesPath : String
  deriving DecidableEq, Repr

namespace Manifest

/-- The file that holds a manifest. -/
def fileName : String := "package.json"

/-- The manifest as a document. -/
def document (m : Manifest) : Json :=
  .obj
    [("name", .str m.package),
     ("version", .str "0.0.0"),
     ("description", .str ("Generated bindings for " ++ m.entryPoint)),
     ("author", .str "generated@generated.com"),
     ("license", .str "UNLICENSED"),
     ("repository", .obj [("url", .str "http://generated"), ("type", .str "git")]),
     ("main", .str (m.typesPath ++ "/index.js")),
     ("types", .str (m.typesPath ++ "/index.d.ts")),
     ("jsii", .obj
       [("outdir", .str "dist"),
        ("targets", .obj
          [("python", .obj [("distName", .str "generated"), ("module", .str m.package)])])])]

/-- The text of a manifest. -/
def text (m : Manifest) : String :=
  m.document.render

end Manifest

end ProviderBindings
