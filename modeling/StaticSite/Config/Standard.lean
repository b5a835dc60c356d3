import StaticSite.Config.Rules
import StaticSite.Store
import StaticSite.Yaml.Writer

/-!
# Standard libraries

The libraries that the program is given: the reader and writer of `StaticSite.Yaml`, and a validator
that knows the schema of configurations. What is proved of configurations does not depend on them.
-/

namespace StaticSite.Config

/-- Whether a value is the schema of configurations, which is told by its title. -/
def isConfigurationSchema (schema : Value) : Bool :=
  match schema with
  | .mapping entries => (Mapping.find? entries "title").any fun v =>
      v.sameKey (.text "PageBundler configuration")
  | _ => false

/-- The value of the document in some bytes. Where a character is cut short at their end, that is
told from the start of what is left. -/
def readYaml (bytes : ByteArray) : Except Fault Value := do
  let text ← (Session.textOf bytes).mapError fun
    | .bytes ⟨byte, _, width, .cutShort⟩ => .bytes ⟨byte, 0, width, .cutShort⟩
    | fault => fault
  (Yaml.parse text).mapError .yaml

/-- The libraries that the program is given. -/
def Libraries.standard : Libraries where
  read _ := readYaml
  write v := if v.isWritable then .ok (Yaml.renderSorted v) else .error .unwritableNumber
  violations schema v :=
    if isConfigurationSchema schema then Rules.configuration.check v else .ok []

end StaticSite.Config
