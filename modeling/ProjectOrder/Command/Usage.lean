/-! What the command line tells about itself. -/
namespace ProjectOrder.Command

def programName : String :=
  "pbxsort"

def version : String :=
  "0.1.0"

def usage : String :=
  "
Usage: pbxsort [options] <project.pbxproj | App.xcodeproj | dir>...
       pbxsort [options] -

Sort the arrays and safe sections of Xcode project.pbxproj files in place.

Arguments:
  <path>                  project.pbxproj file or .xcodeproj bundle
  -                       Read a project file from stdin, write the sorted text to stdout

Options:
  --check                 Exit 1 if any file is not sorted; never writes
  --case-insensitive      Case-insensitive natural sort
  --case-sensitive        Case-sensitive natural sort (default)
  -r, --recursive         Search directory arguments for .xcodeproj bundles
  --fail-fast             Stop at the first file that fails
  -w, --no-warnings       Suppress warnings
  -c, --config <path>     Path to pbxsort.json
                          (defaults to PBXSORT_CONFIG env var or ./pbxsort.json)
  -v, --version           Show version
  -h, --help              Show this help message

Exit codes:
  0  Success
  1  Usage error, or unsorted files in --check mode
  2  A file could not be sorted

Examples:
  pbxsort App.xcodeproj
  pbxsort --check -r .
  git show HEAD:App.xcodeproj/project.pbxproj | pbxsort - > sorted.pbxproj
"

end ProjectOrder.Command
