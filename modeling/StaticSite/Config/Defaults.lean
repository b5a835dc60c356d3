import StaticSite.Value.Basic

/-!
# Default configuration

The configuration of a site that says nothing. All other sources are laid over it.
-/

namespace StaticSite.Config

/-- A mapping whose keys are texts. -/
def fields (l : List (String × Value)) : Value := .mapping (l.map fun e => (.text e.1, e.2))

/-- The configuration of a site that says nothing. -/
def defaults : Value := fields [
  ("mode", .text "development"),
  ("output_path", .text "dist"),
  ("clean", .bool false),
  ("includes", fields [
    ("prefix", .text "PageBundler"),
    ("pattern", .text "include"),
    ("properties", .mapping []),
    ("max_depth", .int 32)]),
  ("minify", fields [
    ("remove_comments", .bool true),
    ("collapse_whitespace", .bool true),
    ("keep_closing_slash", .bool true),
    ("use_short_doctype", .bool true),
    ("remove_script_type_attributes", .bool true),
    ("remove_style_link_type_attributes", .bool true)]),
  ("chunks", .mapping []),
  ("chunk_manifest", .null),
  ("entry", .mapping []),
  ("sitemap", .null)]

end StaticSite.Config
