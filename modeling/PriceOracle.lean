import PriceOracle.Power
import PriceOracle.Text.Blank
import PriceOracle.Text.Digits
import PriceOracle.Decimal
import PriceOracle.Decimal.Numeral
import PriceOracle.Binary64
import PriceOracle.Binary64.Numeral
import PriceOracle.Text.Hex
import PriceOracle.Json
import PriceOracle.Document
import PriceOracle.Json.Token
import PriceOracle.Json.Reader
import PriceOracle.Uint256
import PriceOracle.Decimal.FixedPoint
import PriceOracle.Crypto.Keccak
import PriceOracle.Address
import PriceOracle.Crypto.Secp256k1
import PriceOracle.Document.Decode
import PriceOracle.Round
import PriceOracle.Oracle
import PriceOracle.Event
import PriceOracle.Oracle.Codec
import PriceOracle.Duration
import PriceOracle.Setting
import PriceOracle.Schema
import PriceOracle.Text.Split
import PriceOracle.Source.Error
import PriceOracle.Source.Path
import PriceOracle.Source.Signature
import PriceOracle.Validation
import PriceOracle.Config
import PriceOracle.Config.Codec
import PriceOracle.Config.Error
import PriceOracle.Config.Check
import PriceOracle.Config.Substitution
import PriceOracle.Toml.Text
import PriceOracle.Toml.Scalar
import PriceOracle.Toml.Table
import PriceOracle.Toml.Reader
import PriceOracle.Yaml.Scalar
import PriceOracle.Yaml.Reader
import PriceOracle.Config.Format
import PriceOracle.Config.Load
import PriceOracle.Program
import PriceOracle.Dict
import PriceOracle.Storage
import PriceOracle.Directory
import PriceOracle.Storage.Memory
import PriceOracle.Storage.File
import PriceOracle.Account
import PriceOracle.Feed.Error
import PriceOracle.Feed
import PriceOracle.Publication
import PriceOracle.Source.Read
import PriceOracle.Source.Settings
import PriceOracle.Feed.Settings
import PriceOracle.Registry
import PriceOracle.Schedule
import PriceOracle.Retry
import PriceOracle.Lock
import PriceOracle.EventBus
import PriceOracle.Authorization
import PriceOracle.Surroundings
import PriceOracle.Cycle
import PriceOracle.Management
import PriceOracle.Log
import PriceOracle.Engine
import PriceOracle.Assembly
import PriceOracle.Url
import PriceOracle.Source.Download
import PriceOracle.Abi
import PriceOracle.Node
import PriceOracle.Node.Contract
import PriceOracle.Node.PriceFeed
import PriceOracle.Api.Segment
import PriceOracle.Api.Route
import PriceOracle.Api.Message
import PriceOracle.Api
import PriceOracle.Text.Quote
import PriceOracle.Simulation.Files
import PriceOracle.Simulation.PriceFeed
import PriceOracle.Simulation.Backend
import PriceOracle.Simulation.World
import PriceOracle.Simulation.Threads
import PriceOracle.Simulation.Opening
import PriceOracle.CommandLine
import PriceOracle.Json.Access
import PriceOracle.Simulation.Script
import PriceOracle.Simulation.Session
import PriceOracle.Simulation.Machine
import PriceOracle.Cycle.Codec
import PriceOracle.Main
import PriceOracle.Proofs.Text.Digits
import PriceOracle.Proofs.Json.Token
import PriceOracle.Proofs.Json.RoundTrip
import PriceOracle.Proofs.Chain.Cycles
import PriceOracle.Proofs.Chain.Submissions
import PriceOracle.Proofs.Chain.Synchrony
import PriceOracle.Proofs.Chain.Calls
import PriceOracle.Proofs.Registry.Plans
import PriceOracle.Proofs.Registry.Reload
import PriceOracle.Proofs.Registry.Failures
import PriceOracle.Proofs.Storage.Files
import PriceOracle.Proofs.Registry.Recovery
import PriceOracle.Proofs.Chain.Conflicts
import PriceOracle.Proofs.Lock.Grip
import PriceOracle.Proofs.Lock.Turns
import PriceOracle.Proofs.Lock.SingleFlight
import PriceOracle.Proofs.Registry.Regular
import PriceOracle.Proofs.Cycle.NextRound
import PriceOracle.Proofs.Cycle.Origins
import PriceOracle.Proofs.Service.Halts
import PriceOracle.Proofs.Cycle.Answers
import PriceOracle.Proofs.Service.Readback
import PriceOracle.Proofs.Service.Tally
import PriceOracle.Proofs.Chain.Depth
import PriceOracle.Proofs.Tick.Independence
import PriceOracle.Proofs.Storage.Refinement
import PriceOracle.Proofs.Api.Refusal
import PriceOracle.Proofs.Api.Reach
import PriceOracle.Proofs.Program.Transcript
import PriceOracle.Proofs.Cycle.Effects
import PriceOracle.Proofs.Cycle.Outcomes
import PriceOracle.Proofs.Registry.Company
import PriceOracle.Proofs.Service.Course
import PriceOracle.Proofs.Cycle.Announcements
import PriceOracle.Proofs.Service.Announcements
import PriceOracle.Proofs.Decimal.Inverse
import PriceOracle.Proofs.Source.Extraction
import PriceOracle.Proofs.Cycle.Retries
import PriceOracle.Proofs.Storage.Survival
import PriceOracle.Proofs.Source.Navigation
import PriceOracle.Proofs.Config.Substitution
import PriceOracle.Proofs.Registry.Seeding
import PriceOracle.Proofs.Address
import PriceOracle.Proofs.Schema.Conformance
import PriceOracle.Proofs.Schema.Faults
import PriceOracle.Proofs.Source.Signature
import PriceOracle.Proofs.Node.Confirmation
import PriceOracle.Proofs.Node.Session
