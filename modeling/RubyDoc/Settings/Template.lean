import RubyDoc.Text.Basic

/-!
# The settings file to start from

A settings file with every setting at its default and a comment on each.
-/

namespace RubyDoc.Settings

/-- The lines of the file. -/
def templateLines : List String := [
  "# yardgen configuration file (yardgen.yml)",
  "#",
  "# Common workflows:",
  "#   # CI check (fails if any file would change):",
  "#   yardgen run --check lib",
  "#",
  "#   # Auto-fix (rewrites files):",
  "#   yardgen run --write lib",
  "#",
  "#   # Refresh (regenerates existing doc blocks):",
  "#   yardgen run --write --refresh lib",
  "#",
  "#   # Merge (adds only missing tags to existing doc blocks):",
  "#   yardgen run --write --merge lib",
  "",
  "emit:",
  "  # Emit the header line:",
  "  #   # +MyClass#my_method+ -> ReturnType",
  "  header: true",
  "",
  "  # Emit the default description line (see doc.default_message).",
  "  description: true",
  "",
  "  # Emit @param tags.",
  "  param_tags: true",
  "",
  "  # Emit @return tag (can be overridden per scope/visibility under methods:).",
  "  return_tag: true",
  "",
  "  # Emit @private / @protected tags based on Ruby visibility context.",
  "  visibility_tags: true",
  "",
  "  # Emit @raise tags inferred from rescue clauses / raise/fail calls.",
  "  raise_tags: true",
  "",
  "  # Emit conditional rescue return tags:",
  "  #   # @return [String] if FooError, BarError",
  "  rescue_conditional_returns: true",
  "",
  "  # Emit @!attribute blocks for attr_reader / attr_writer / attr_accessor.",
  "  attributes: false",
  "",
  "doc:",
  "  # Default text inserted into each generated doc block.",
  "  default_message: \"Method documentation.\"",
  "",
  "methods:",
  "  # Per-scope/per-visibility overrides.",
  "  #",
  "  # Example:",
  "  #   methods:",
  "  #     instance:",
  "  #       public:",
  "  #         default_message: \"Public API.\"",
  "  #         return_tag: true",
  "  instance:",
  "    public: \x7b\x7d",
  "    protected: \x7b\x7d",
  "    private: \x7b\x7d",
  "  class:",
  "    public: \x7b\x7d",
  "    protected: \x7b\x7d",
  "    private: \x7b\x7d",
  "",
  "inference:",
  "  # Type used when inference is uncertain.",
  "  fallback_type: \"Object\"",
  "",
  "  # Whether nil unions become optional types (String + nil => String?).",
  "  nil_as_optional: true",
  "",
  "  # Special case: treat a keyword argument named options: as a Hash.",
  "  treat_options_keyword_as_hash: true",
  "",
  "filter:",
  "  # Filter which methods yardgen touches.",
  "  #",
  "  # Method id format:",
  "  #   instance: \"MyModule::MyClass#instance_method\"",
  "  #   class:    \"MyModule::MyClass.class_method\"",
  "  #",
  "  # Patterns:",
  "  # - glob: \"*#initialize\", \"MyApp::*#*\"",
  "  # - regex: \"/^MyApp::.*#(foo|bar)$/\"",
  "  #",
  "  # Semantics:",
  "  # - scopes/visibilities act as allow-lists",
  "  # - exclude wins",
  "  # - if include is empty => include everything (subject to allow-lists)",
  "  visibilities: [\"public\", \"protected\", \"private\"]",
  "  scopes: [\"instance\", \"class\"]",
  "  include: []",
  "  exclude: []",
  "",
  "  files:",
  "    # Filter which files yardgen processes (paths relative to the working directory).",
  "    #",
  "    # Patterns use .gitignore syntax, so a bare directory name excludes the",
  "    # whole directory:",
  "    #     exclude: [\"spec\"]",
  "    # Regexes wrapped in slashes are also accepted:",
  "    #     exclude: [\"/_spec\\\\.rb$/\"]",
  "    include: []",
  "    exclude: [\"spec\"]",
  "",
  "signatures:",
  "  # Use RBS signatures to improve @param/@return types.",
  "  #",
  "  # CLI equivalent:",
  "  #   yardgen run --rbs --sig-dir sig --write lib",
  "  enabled: false",
  "",
  "  # Signature directories (repeatable via --sig-dir).",
  "  sig_dirs: [\"sig\"]",
  "",
  "  # If true, simplify generic types:",
  "  #   Hash<Symbol, Object> => Hash",
  "  #   Array<String>        => Array",
  "  collapse_generics: false"
]

/-- The text of the file. -/
def template : Text :=
  templateLines.flatMap fun line => Text.ofString line ++ [.lineFeed]

end RubyDoc.Settings
