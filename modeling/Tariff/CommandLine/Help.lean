/-
# Help

The texts that tell what the program can be asked to do.
-/
import Tariff.CommandLine.Arguments

namespace Tariff

/-- The name of the program. -/
def programName : String := "vat-cost"

/-- The version of the program. -/
def programVersion : String := "0.1.0"

/-- The help for a level. -/
def ArgumentLevel.help : ArgumentLevel → List String
  | .program =>
    ["按国家规则估算 VAT 申报费用",
      "",
      "Usage: vat-cost [OPTIONS] <COMMAND>",
      "",
      "Commands:",
      "  estimate  估算一个或多个国家的费用",
      "  validate  校验规则定义文件，列出无法编译的规则",
      "  help      Print this message or the help of the given subcommand(s)",
      "",
      "Options:",
      "  -l, --log-level <LOG_LEVEL>  日志级别，覆盖配置文件 (trace, debug, info, warn, error)",
      "      --json-logs              输出 JSON 格式日志",
      "  -h, --help                   Print help",
      "  -V, --version                Print version"]
  | .estimate =>
    ["估算一个或多个国家的费用",
      "",
      "Usage: vat-cost estimate [OPTIONS] --rules <RULES> --params <PARAMS> --country <COUNTRIES>",
      "",
      "Options:",
      "  -l, --log-level <LOG_LEVEL>  日志级别，覆盖配置文件 (trace, debug, info, warn, error)",
      "  -r, --rules <RULES>          规则定义文件（JSON 数组）",
      "      --json-logs              输出 JSON 格式日志",
      "  -p, --params <PARAMS>        参数文件（JSON 对象）",
      "  -c, --country <COUNTRIES>    国家代码，可重复指定",
      "  -d, --date <DATE>            生效日期 (YYYY-MM-DD)，默认为今天",
      "      --metrics                计算完成后输出指标快照",
      "  -h, --help                   Print help",
      "  -V, --version                Print version"]
  | .validate =>
    ["校验规则定义文件，列出无法编译的规则",
      "",
      "Usage: vat-cost validate [OPTIONS] --rules <RULES>",
      "",
      "Options:",
      "  -l, --log-level <LOG_LEVEL>  日志级别，覆盖配置文件 (trace, debug, info, warn, error)",
      "  -r, --rules <RULES>          规则定义文件（JSON 数组）",
      "      --json-logs              输出 JSON 格式日志",
      "  -h, --help                   Print help",
      "  -V, --version                Print version"]

/-- The lines of the help about a topic. -/
def HelpTopic.lines : HelpTopic → List String
  | .level about => about.help
  | .help =>
    ["Print this message or the help of the given subcommand(s)",
      "",
      "Usage: vat-cost help [COMMAND]...",
      "",
      "Arguments:",
      "  [COMMAND]...  Print help for the subcommand(s)"]

/-- The help about a topic. -/
def HelpTopic.text (topic : HelpTopic) : String :=
  String.join (topic.lines.map fun line => line ++ "\n")

/-- The line that shows the version, by the name of the program or of a command. -/
def ArgumentLevel.versionText (level : ArgumentLevel) : String :=
  let suffix := match level with
    | .program => ""
    | .estimate => "-estimate"
    | .validate => "-validate"
  programName ++ suffix ++ " " ++ programVersion ++ "\n"

end Tariff
