import RequestTrail.Analysis
import RequestTrail.Config.Json
import RequestTrail.Config.Yaml
import RequestTrail.Index.Json
import RequestTrail.Report.Json
import RequestTrail.Proofs.SeenSet
import RequestTrail.Proofs.WitnessPath
import RequestTrail.Proofs.Anchoring
import RequestTrail.Proofs.Discovery
import RequestTrail.Proofs.DigitRuns
import RequestTrail.Proofs.Attribution
import RequestTrail.Proofs.Cascade
import RequestTrail.Proofs.Explanation
import RequestTrail.Proofs.Report
import RequestTrail.Proofs.Requests
import RequestTrail.Proofs.Service
import RequestTrail.Proofs.Evidence
import RequestTrail.Proofs.Unattributed
import RequestTrail.Proofs.Idempotence
import RequestTrail.Proofs.Uniqueness
import RequestTrail.Proofs.Log
import RequestTrail.Proofs.InsertionOrder
import RequestTrail.Proofs.Renaming.Index
import RequestTrail.Proofs.Renaming.Analysis
import RequestTrail.Proofs.Spelling
import RequestTrail.Proofs.Refinement
import RequestTrail.Proofs.Loading
import RequestTrail.Proofs.Dependence
import RequestTrail.Proofs.Growth
import RequestTrail.Proofs.RepeatedCalls
import RequestTrail.Proofs.CallSites
import RequestTrail.Proofs.Nesting
import RequestTrail.Proofs.Noninterference
import RequestTrail.Proofs.Json.Reading
import RequestTrail.Proofs.Workers
import RequestTrail.Proofs.Json.Records
import RequestTrail.Proofs.Json.Report
import RequestTrail.Proofs.Json.Snapshot
import RequestTrail.Proofs.Yaml.Line
import RequestTrail.Proofs.Yaml.Scalar.Block
import RequestTrail.Proofs.Yaml.Scalar.Plain
import RequestTrail.Proofs.Yaml.Scalar.Quoted
import RequestTrail.Proofs.Yaml.Lexing
import RequestTrail.Proofs.Yaml.Blocks
import RequestTrail.Proofs.Yaml.Config
