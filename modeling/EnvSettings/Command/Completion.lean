import EnvSettings.Command

namespace EnvSettings.CompletionShell

/-- The lines that tell where a script goes. -/
def advice : CompletionShell → List String
  | bash => ["# Source it from ~/.bashrc:", "#   eval \"$(strictenv completions bash)\""]
  | zsh => ["#   strictenv completions zsh > ~/.zsh/completions/_strictenv",
      "# Make sure ~/.zsh/completions is in your $fpath"]
  | fish => ["#   strictenv completions fish | source"]
  | powerShell => ["#   strictenv completions powershell | Out-String | Invoke-Expression"]
  | elvish => []

/-- What is told before a script. -/
def heading (shell : CompletionShell) : String :=
  let lines := s!"# Generating {shell.name} completion script" :: shell.advice ++ [""]
  String.join (lines.map (· ++ "\n"))

end EnvSettings.CompletionShell
