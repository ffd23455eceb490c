import TextTemplate.CommandLine

/-! What the program says about itself. -/

namespace TextTemplate.CommandLine

def programName : String := "ect"

def versionText : String := programName ++ " 0.1.0\n"

abbrev Listing := List (String × String)

def listingText (title : String) (l : Listing) : String :=
  let width := l.foldl (fun w e => max w e.1.length) 0
  "\n" ++ title ++ ":\n" ++ String.join (l.map fun e =>
    "  " ++ e.1 ++ String.ofList (List.replicate (width - e.1.length) ' ') ++ "  " ++ e.2 ++ "\n")

def Setting.listing : Setting → String × String
  | .logLevel =>
    ("    --log-level <LOG_LEVEL>", "Log level: error, warn, info, debug, trace [default: warn]")
  | .config => ("    --config <CONFIG>", "Configuration file [default: ect.toml]")
  | .root => ("    --root <ROOT>", "Template root directory")
  | .ext => ("    --ext <EXT>", "Extension appended to template names, e.g. \".ect\"")
  | .opening => ("    --open <OPEN>", "Script open delimiter")
  | .closing => ("    --close <CLOSE>", "Script close delimiter")
  | .extend => ("    --extend <EXTEND>", "Behavior of `extend`: eager or deferred")
  | .data => ("-d, --data <DATA>", "JSON file used as the template's self value")
  | .output => ("-o, --output <OUTPUT>", "Write the result to this file instead of stdout")

def generalListing : Listing :=
  [Setting.logLevel, .config, .root, .ext, .opening, .closing, .extend].map Setting.listing

def helpListing : Listing := [("-h, --help", "Print help")]

def renderListing : Listing :=
  [Setting.data, .logLevel, .config, .output, .root].map Setting.listing
    ++ [("-w, --watch", "Re-render whenever a template changes")]
    ++ [Setting.ext, .opening, .closing, .extend].map Setting.listing

def commandListing : Listing :=
  [("render", "Render a template"),
    ("check", "Compile templates and report syntax errors"),
    ("help", "Print this message or the help of the given subcommand(s)")]

def usageText (arguments : String) : String :=
  "Usage: " ++ programName ++ " " ++ arguments ++ "\n"

def generalUsage : String := usageText "[OPTIONS] <COMMAND>"

def helpText : Topic → String
  | .program =>
    "Render and check <% %> script templates\n\n" ++ generalUsage
      ++ listingText "Commands" commandListing
      ++ listingText "Options"
        (generalListing ++ helpListing ++ [("-V, --version", "Print version")])
  | .render =>
    "Render a template\n\n" ++ usageText "render [OPTIONS] <TEMPLATE>"
      ++ listingText "Arguments" [("<TEMPLATE>", "Template name, relative to the root")]
      ++ listingText "Options" (renderListing ++ helpListing)
  | .check =>
    "Compile templates and report syntax errors\n\n" ++ usageText "check [OPTIONS] <TEMPLATES>..."
      ++ listingText "Arguments" [("<TEMPLATES>...", "Template names, relative to the root")]
      ++ listingText "Options" (generalListing ++ helpListing)
  | .help =>
    "Print this message or the help of the given subcommand(s)\n\n" ++ usageText "help [COMMAND]..."
      ++ listingText "Arguments" [("[COMMAND]...", "Print help for the subcommand(s)")]

def misuseText : String :=
  "error: the arguments cannot be used\n\n" ++ generalUsage
    ++ "\nFor more information, try '--help'.\n"

end TextTemplate.CommandLine
