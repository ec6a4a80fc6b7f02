import RoadTraffic.CommandLine.Run

/-!
# What is printed

A report goes to the standard output, and so do help and version if they were asked for. What went
wrong goes to the standard error.
-/

namespace RoadTraffic

namespace CommandLine

/-- The name and the version of the program. -/
def programName : String × String := ("mwm-traffic", "0.1.0")

/-- How the program names itself to servers, such as `mwm-traffic/0.1.0`. -/
def agent : String := programName.1 ++ "/" ++ programName.2

/-- How the program is used. -/
def usage : String :=
  "\n".intercalate [
    "Usage: mwm-traffic [OPTIONS] <COMMAND>",
    "",
    "Commands:",
    "  inspect-keys <PATH>               Summarize an encoded traffic keys file",
    "  inspect-values <PATH>             Summarize an encoded traffic values file",
    "  encode-keys <FEATURES> <OUTPUT>   Build a traffic keys file from a JSON list of features",
    "  encode-values <VALUES> <OUTPUT>   Build a traffic values file from a JSON list of groups",
    "  sync --region <REGION> --version <VERSION> --data-version <VERSION> [--etag <ETAG>]",
    "                                    Fetch keys and values for one mwm, report the result",
    "  help [COMMAND]                    Print help",
    "",
    "Options:",
    "      --config <CONFIG>      Path to a JSON config file [env: TRAFFIC_CONFIG]",
    "      --base-url <BASE_URL>  Base URL of the traffic server [env: TRAFFIC_DATA_BASE_URL]",
    "  -h, --help                 Print help",
    "  -V, --version              Print version",
    ""]

end CommandLine

namespace Outcome

open CommandLine in
/-- What goes to the standard output: a report, or what was asked for. -/
def output : Outcome → String
  | reported report => report.render
  | refused .help => usage
  | refused .version => programName.1 ++ " " ++ programName.2 ++ "\n"
  | failed _ | refused .misuse => ""

/-- What goes to the standard error: a failure, or `usage` after arguments that make no sense. -/
def errors : Outcome → String
  | failed failure => failure.text ++ "\n"
  | refused .misuse => CommandLine.usage
  | reported _ | refused .help | refused .version => ""

end Outcome

end RoadTraffic
