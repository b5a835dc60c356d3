import StaticSite.Schema.Check

/-!
# Rules for configurations

The schema that every configuration has to satisfy before settings are made of it. What the
properties for includes are is not restricted: what is no mapping holds no properties.
-/

namespace StaticSite.Config.Rules

/-- A text that is not empty. -/
def nonEmptyText : Schema := [.shapes [.string], .leastLength 1]

/-- Any text. -/
def anyText : Schema := [.shapes [.string]]

/-- A list of texts. -/
def textList : Schema := [.shapes [.array], .items anyText]

/-- A stylesheet of a page. -/
def stylesheet : Schema := [
  .shapes [.object],
  .required ["import", "filename"],
  .properties [("import", nonEmptyText), ("filename", nonEmptyText)]]

/-- A script chunk of a page. -/
def scriptChunk : Schema := [
  .shapes [.object],
  .required ["name"],
  .properties [
    ("name", nonEmptyText),
    ("inject", [.oneOfTexts ["body", "head"]]),
    ("attributes", [.shapes [.object]])]]

/-- The rule for canonical addresses. -/
def canonical : Schema := [
  .shapes [.object],
  .required ["origin_url"],
  .properties [("origin_url", anyText), ("force_trailing_slash", [.shapes [.boolean]])]]

/-- A directory that is copied as it is. -/
def assetDirectory : Schema := [
  .shapes [.object],
  .required ["src_path", "dest_path"],
  .properties [("src_path", anyText), ("dest_path", anyText)],
  .noOthers]

/-- A page. -/
def page : Schema := [
  .shapes [.object],
  .never [.required ["src_path"]],
  .properties [
    ("import", nonEmptyText),
    ("filename", nonEmptyText),
    ("styles", [.shapes [.array], .items [.shared "stylesheetEntry" stylesheet]]),
    ("jschunks", [.shapes [.array], .items [.shared "scriptChunkEntry" scriptChunk]]),
    ("canonical", [.shared "canonical" canonical])]]

/-- The rules for the sitemap. -/
def sitemap : Schema := [
  .shapes [.object],
  .required ["origin_url"],
  .properties [
    ("origin_url", anyText),
    ("lastmod", anyText),
    ("exclude", textList),
    ("include", textList)]]

/-- The schemas that are shared, with their names. -/
def shared : List (String × Schema) := [
  ("stylesheetEntry", stylesheet),
  ("scriptChunkEntry", scriptChunk),
  ("canonical", canonical),
  ("assetDirEntry", assetDirectory),
  ("pageEntry", page),
  ("sitemap", sitemap)]

/-- The schema of configurations. -/
def configuration : Schema := [
  .note "$schema" "https://json-schema.org/draft/2020-12/schema",
  .note "title" "PageBundler configuration",
  .shapes [.object],
  .required ["entry"],
  .properties [
    ("mode", [.oneOfTexts ["development", "production"]]),
    ("output_path", nonEmptyText),
    ("clean", [.shapes [.boolean]]),
    ("includes", [
      .shapes [.object],
      .properties [
        ("prefix", anyText),
        ("pattern", [.oneOfTexts ["include", "import"]]),
        ("max_depth", [.shapes [.integer], .least 1])]]),
    ("minify", [.shapes [.object], .others [.shapes [.boolean]]]),
    ("chunks", [.shapes [.object], .others [.exactlyOne [anyText, textList]]]),
    ("chunk_manifest", [.shapes [.string, .null]]),
    ("entry", [
      .shapes [.object],
      .others [.exactlyOne
        [[.shared "assetDirEntry" assetDirectory], [.shared "pageEntry" page]]]]),
    ("sitemap", [.exactlyOne [[.shapes [.null]], [.shared "sitemap" sitemap]]])]]

/-- The schema of configurations as a value. -/
def value : Value := configuration.toValue shared

end StaticSite.Config.Rules
