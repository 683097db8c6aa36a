namespace TypeAtlas.Command

/-- The options at a glance. -/
def usage : String :=
  "usage: javadeps [-h] [-m \x7bproject,package,class\x7d] [-f \x7btext,json\x7d] [-o OUTPUT]\n" ++
  "                [--config CONFIG] [--max-concurrency MAX_CONCURRENCY]\n" ++
  "                [--no-cancel] [-v]\n" ++
  "                path\n"

/-- The help page. -/
def helpPage : String :=
  usage ++
  "\n" ++
  "Report type-level dependencies of every class and package in a Java source\n" ++
  "tree.\n" ++
  "\n" ++
  "positional arguments:\n" ++
  "  path                  Project root (or package directory / source file, see\n" ++
  "                        --mode)\n" ++
  "\n" ++
  "options:\n" ++
  "  -h, --help            show this help message and exit\n" ++
  "  -m \x7bproject,package,class\x7d, --mode \x7bproject,package,class\x7d\n" ++
  "                        What PATH points at (default: project)\n" ++
  "  -f \x7btext,json\x7d, --format \x7btext,json\x7d\n" ++
  "                        Output format (default: text)\n" ++
  "  -o OUTPUT, --output OUTPUT\n" ++
  "                        Write the report to this file instead of stdout\n" ++
  "  --config CONFIG       Configuration file (default: .javadeps.toml in the\n" ++
  "                        project)\n" ++
  "  --max-concurrency MAX_CONCURRENCY\n" ++
  "                        Cap on simultaneous file reads, listings and parses\n" ++
  "  --no-cancel           Let sibling tasks finish after the first failure\n" ++
  "                        instead of cancelling them\n" ++
  "  -v, --verbose         Enable verbose (debug) output\n"

end TypeAtlas.Command
