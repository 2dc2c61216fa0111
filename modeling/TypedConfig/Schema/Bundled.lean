import TypedConfig.Schema.Load

/-! # The bundled schema

Declarations of the steps of a build pipeline: command, wait, block and trigger steps.
-/

namespace TypedConfig.Schema.Bundled

def sourceName : String := "buildkite.d.ts"

def lines : List String := [
  "/**",
  " * Buildkite pipeline step declarations.",
  " * https://buildkite.com/docs/pipelines/defining-steps",
  " */",
  "",
  "/**",
  " * Branch filter for a step, e.g. \"main stable/*\"",
  " */",
  "type BranchPattern = string;",
  "",
  "interface Step \x7b",
  "  /** Shell command or list of commands to run */",
  "  command: string | string[];",
  "  /** Label shown in the pipeline view; supports emoji */",
  "  label?: string;",
  "  /** Branches that include this step */",
  "  branches?: BranchPattern;",
  "  /** Environment variables for the step */",
  "  env?: \x7b [name: string]: string \x7d;",
  "  /** Agent meta-data used to target specific agents */",
  "  agents?: \x7b [key: string]: string \x7d;",
  "  /** Glob or globs of artifacts to upload once the step finishes */",
  "  artifact_paths?: OneOrMany<string>;",
  "  /** Number of parallel jobs created from this step */",
  "  parallelism?: number;",
  "  /** Maximum number of jobs from this step running at once */",
  "  concurrency?: number;",
  "  /** Name of the concurrency group, required with `concurrency` */",
  "  concurrency_group?: string;",
  "  /** Minutes a job may run before it is cancelled */",
  "  timeout_in_minutes?: number;",
  "  /** Skip the step; a string gives the reason */",
  "  skip?: boolean | string;",
  "  /** Retry conditions */",
  "  retry?:",
  "    | \x7b automatic: boolean | AutomaticRetryConditions \x7d",
  "    | \x7b manual: boolean | ManualRetryConditions \x7d;",
  "\x7d",
  "",
  "interface AutomaticRetryConditions \x7b",
  "  /** Exit status that triggers a retry; \"*\" matches any */",
  "  exit_status?: \"*\" | number;",
  "  /** Number of retries, at most 10 */",
  "  limit?: 1 | 2 | 3 | 4 | 5 | 6 | 7 | 8 | 9 | 10;",
  "\x7d",
  "",
  "interface ManualRetryConditions \x7b",
  "  /** Whether the job may be retried manually */",
  "  allowed?: boolean;",
  "  /** Tooltip shown on the Retry button when retries are not allowed */",
  "  reason?: string;",
  "  /** Whether the job may be retried after it passed */",
  "  permit_on_pass?: boolean;",
  "\x7d",
  "",
  "interface TriggerStep \x7b",
  "  /** Slug of the pipeline to build */",
  "  trigger: string;",
  "  /** Attributes of the triggered build */",
  "  build?: \x7b",
  "    /** Build message; defaults to the step label */",
  "    message?: string;",
  "    /** Commit to build; defaults to HEAD */",
  "    commit?: string;",
  "    /** Branch to build */",
  "    branch?: string;",
  "    /** Build meta-data */",
  "    meta_data?: \x7b [key: string]: string \x7d;",
  "    /** Build environment variables */",
  "    env?: \x7b [name: string]: string \x7d;",
  "  \x7d;",
  "  /** Label shown in the pipeline view */",
  "  label?: string;",
  "  /** Continue without waiting for the triggered build */",
  "  async?: boolean;",
  "  /** Branches that include this step */",
  "  branches?: BranchPattern;",
  "\x7d",
  "",
  "/**",
  " * Waits for all previous steps to pass before later steps start.",
  " */",
  "type WaitStep = \"wait\" | \x7b wait: string; continue_on_failure: boolean \x7d;",
  "",
  "declare const wait = \"wait\";",
  "",
  "interface BlockStep \x7b",
  "  /** Label of the block; supports emoji */",
  "  block: string;",
  "  /** Message shown in the unblock dialog */",
  "  prompt?: string;",
  "  /** Input fields to fill in before unblocking */",
  "  fields?: Array<\"text\" | \"select\">;",
  "  /** Branches that include this step */",
  "  branches?: BranchPattern;",
  "\x7d",
  "",
  "type AnyStep = Step | WaitStep | BlockStep | TriggerStep;",
  "",
  "/** Steps to run, in order */",
  "declare var steps: AnyStep[];"]

def source : Source := ⟨sourceName, String.join (lines.map (· ++ "\n"))⟩

def load : Except SchemaError Schema := Schema.load .standard [source]

end TypedConfig.Schema.Bundled
